import Mathlib.Data.Int.ConditionallyCompleteOrder
import Mathlib.Data.List.Dedup
import Mathlib.Data.List.MinMax
import SchuleAlsStaat.Db.Students

/-!
# The configuration log

`configSchema` of `db/config.js`.  The collection logs every change with its
time.  `load` sorts it by key and time and reads the last value of each key.
-/

namespace SchuleAlsStaat

open Js (Json JsVal)

/-- An entry of the collection.  `null` is also what `load` reads where a value
is missing. -/
structure ConfigEntry where
  key : Option String
  value : Json
  time : Time

/-- The cast of a new entry to the schema. -/
def ConfigEntry.cast (C : Casts) (key value : JsVal) (time : Time) : Option ConfigEntry :=
  (C.castString key).map fun key => ⟨key.toOption, C.castMixed value, time⟩

/-- `defaults.json`. -/
def configDefaults : List (String × Json) :=
  [("hgc_tr_decimal_places", .str "2"), ("hgc_decimal_places", .str "5"),
    ("taxinc_qrid", .str "taxinc"), ("update_config_interval", .str "30000"),
    ("transaction_tax_percent", .str "10"), ("tr_comment_maxlen", .str "300"),
    ("magic_account", .str "Zentralbank"), ("poll_timeout", .str "40000"),
    ("poll_max", .str "50"), ("pending_timeout", .str "180"), ("hgc_per_euro", .str "0.8"),
    ("fee_target_account", .str "cb-fees")]

abbrev ConfigLog := List ConfigEntry

namespace ConfigLog

/-- The entry of a key that comes last in the order of the times. -/
def last (L : ConfigLog) (key : Option String) : Option ConfigEntry :=
  (L.filter fun e => e.key = key).foldl (List.argAux fun e' e => e.time < e'.time) none

def keys (L : ConfigLog) : List (Option String) := (L.map ConfigEntry.key).dedup

/-- The groups of the aggregation, one for each key, in an order of the keys. -/
def load (L : ConfigLog) (keys : List (Option String)) : List (Option String × Json) :=
  keys.filterMap fun key => (L.last key).map fun e => (key, e.value)

variable {L : ConfigLog} {key : Option String} {e : ConfigEntry}

/-- The entry is later than all others of its key. -/
def IsLast (L : ConfigLog) (key : Option String) (e : ConfigEntry) : Prop :=
  e ∈ L ∧ e.key = key ∧ ∀ e' ∈ L, e'.key = key → e' = e ∨ e'.time < e.time

theorem last_eq_argmax (L : ConfigLog) (key : Option String) :
    L.last key = (L.filter fun e => e.key = key).argmax ConfigEntry.time := rfl

theorem last_eq_none : L.last key = none ↔ ∀ e ∈ L, e.key ≠ key := by
  rw [last_eq_argmax, List.argmax_eq_none, List.filter_eq_nil_iff]
  simp

theorem mem_of_last (h : L.last key = some e) : e ∈ L ∧ e.key = key := by
  have hmem := List.argmax_mem (Option.mem_def.mpr ((last_eq_argmax L key).symm.trans h))
  simpa using hmem

theorem IsLast.last_eq (h : L.IsLast key e) : L.last key = some e := by
  obtain ⟨hmem, hkey, hlate⟩ := h
  have hfilter : e ∈ L.filter fun e => e.key = key := by simp [hmem, hkey]
  cases hlast : L.last key with
  | none => exact absurd hkey (last_eq_none.mp hlast e hmem)
  | some e' =>
      obtain ⟨hmem', hkey'⟩ := mem_of_last hlast
      have hle : e.time ≤ e'.time := List.le_of_mem_argmax hfilter (Option.mem_def.mpr hlast)
      rcases hlate e' hmem' hkey' with rfl | hlt
      · rfl
      · exact absurd hlt hle.not_gt

/-- When no two entries have the same time, a key that is logged has a last
entry. -/
theorem isLast_of_last (hL : L.Pairwise fun a b => a.time ≠ b.time) (h : L.last key = some e) :
    L.IsLast key e := by
  obtain ⟨hmem, hkey⟩ := mem_of_last h
  refine ⟨hmem, hkey, fun e' hmem' hkey' => ?_⟩
  have hfilter : e' ∈ L.filter fun e => e.key = key := by simp [hmem', hkey']
  have hle : e'.time ≤ e.time := List.le_of_mem_argmax hfilter (Option.mem_def.mpr h)
  by_contra hne
  obtain ⟨hne, hlt⟩ := not_or.mp hne
  have : Std.Symm fun a b : ConfigEntry => a.time ≠ b.time := ⟨fun _ _ => Ne.symm⟩
  exact hL.forall hmem' hmem hne (le_antisymm hle (not_lt.mp hlt))

theorem mem_keys_of_last (h : L.last key = some e) : key ∈ L.keys := by
  obtain ⟨hmem, hkey⟩ := mem_of_last h
  rw [keys, List.mem_dedup, ← hkey]
  exact List.mem_map_of_mem hmem

/-- A group holds the value of the last entry of its key. -/
theorem mem_load {keys : List (Option String)} (hkeys : keys.Perm L.keys) {v : Json} :
    (key, v) ∈ L.load keys ↔ ∃ e, L.last key = some e ∧ e.value = v := by
  rw [load, List.mem_filterMap]
  constructor
  · rintro ⟨k, -, hk⟩
    obtain ⟨e, he, hv⟩ := Option.map_eq_some_iff.mp hk
    cases hv
    exact ⟨e, he, rfl⟩
  · rintro ⟨e, he, rfl⟩
    exact ⟨key, hkeys.mem_iff.mpr (mem_keys_of_last he), by rw [he]; rfl⟩

end ConfigLog

end SchuleAlsStaat
