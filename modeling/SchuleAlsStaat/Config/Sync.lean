import SchuleAlsStaat.Actions.Callbacks
import SchuleAlsStaat.Db.Config
import SchuleAlsStaat.Lib.Runs

/-!
# Synchronizing the configuration

`config/index.js`.  Every worker keeps the configuration in an object of its
own, which starts as `defaults.json`.  `set` and `del` insert an entry into the
log, and `del` also removes the property at once.  `update_config` loads the
last value of each key and applies it.

An insert fails or is saved at any time, and so is a load executed and applied
at any time.  The clocks of the workers give no time twice, and the groups of
the aggregation have no promised order.
-/

namespace SchuleAlsStaat.ConfigSync

open Js (Exn Json JsVal JS except_bind_eq_ok)
open Calls (Phase withSent withReply)
open Runs (Run AnyRun)

/-! ## The object of a worker -/

/-- `config`: its own properties, and the object that was assigned to
`__proto__`. -/
@[ext] structure Options where
  own : String → Option Json
  proto : Option Json

def defaults : Options := ⟨fun name => configDefaults.lookup name, none⟩

/-- The value is not primitive. -/
def isObject : Json → Bool
  | .obj _ | .arr _ => true
  | _ => false

namespace Options

/-- `config[name]`, as far as it is not a property of `Object.prototype`. -/
def get (config : Options) (name : String) : JsVal :=
  match config.own name, config.proto with
  | some v, _ => some v
  | none, some (.obj fields) => Json.field name fields
  | none, some (.arr l) =>
      if name = "length" then some (.num ⟨l.length, 0⟩)
      else (l.zipIdx.find? fun p => toString p.2 = name).map Prod.fst
  | none, _ => none

/-- `config[name] === value`, for a value that was just loaded. -/
def holds (config : Options) (name : String) (value : Json) : Bool :=
  match config.get name, value with
  | some (.str s), .str t => s = t
  | some (.num d), .num e => d = e
  | some (.bool b), .bool c => b = c
  | _, _ => false

/-- `delete config[name]`. -/
def delete (config : Options) (name : String) : Options :=
  { config with own := Function.update config.own name none }

/-- `config[name] = value`.  Assigning to `__proto__` makes no property, and a
primitive value has no effect there. -/
def assign (config : Options) (name : String) (value : Json) : Options :=
  if name = "__proto__" then
    if isObject value then { config with proto := some value } else config
  else { config with own := Function.update config.own name (some value) }

end Options

/-- The property that a key names. -/
def propertyName (key : Option String) : String := key.getD "null"

/-- What becomes of one group in `update_config`.  The line for the log needs
the value as a string. -/
def update (config : Options) (g : Option String × Json) : Except Exn Options :=
  let name := propertyName g.1
  if g.2.isNull then .ok (config.delete name)
  else if config.holds name g.2 then .ok config
  else do
    let _ ← JsVal.toStr (some g.2)
    return config.assign name g.2

/-- The callback of `load`.  An exception ends its loop. -/
def update_config (config : Options) : List (Option String × Json) → Options
  | [] => config
  | g :: cfg_new => match update config g with
      | .ok config => update_config config cfg_new
      | .error _ => config

/-- The value of a property, with `null` for its absence. -/
def present (v : Json) : Option Json := if v.isNull then none else some v

/-! ## Updates -/

section Update

variable {config config' : Options} {g : Option String × Json} {name : String}

theorem Options.get_of_proto (h : config.proto = none) (name : String) :
    config.get name = config.own name := by
  rw [get, h]
  split <;> simp_all

/-- A value that is held without a prototype is an own property. -/
theorem Options.own_of_holds (h : config.proto = none) {value : Json}
    (hholds : config.holds name value = true) : config.own name = some value := by
  rw [← get_of_proto h]
  unfold holds at hholds
  split at hholds
  next hget => rw [hget, of_decide_eq_true hholds]
  next hget => rw [hget, of_decide_eq_true hholds]
  next hget => rw [hget, of_decide_eq_true hholds]
  next => cases hholds

/-- A group has removed its property, or the property had the value, or it is
assigned. -/
theorem update_cases (h : update config g = .ok config') :
    (g.2.isNull = true ∧ config' = config.delete (propertyName g.1)) ∨
      g.2.isNull = false ∧ (config.holds (propertyName g.1) g.2 = true ∧ config' = config ∨
        config' = config.assign (propertyName g.1) g.2) := by
  rw [update] at h
  split at h
  next hnull =>
    cases h
    exact .inl ⟨hnull, rfl⟩
  next hnull =>
    refine .inr ⟨by simpa using hnull, ?_⟩
    split at h
    next hholds =>
      cases h
      exact .inl ⟨hholds, rfl⟩
    next =>
      obtain ⟨_, -, h⟩ := except_bind_eq_ok h
      cases h
      exact .inr rfl

/-- A value with a string form does not end the loop. -/
theorem update_isOk (h : JsVal.hasStr (some g.2) = true) : ∃ config', update config g = .ok config' := by
  rw [update]
  split
  next => exact ⟨_, rfl⟩
  next =>
    split
    next => exact ⟨_, rfl⟩
    next =>
      rw [JsVal.hasStr] at h
      cases hstr : JsVal.toStr (some g.2) with
      | ok t => exact ⟨_, rfl⟩
      | error e => simp [hstr, Except.isOk, Except.toBool] at h

theorem Options.own_assign_of_ne (h : propertyName g.1 ≠ name) (value : Json) :
    (config.assign (propertyName g.1) value).own name = config.own name := by
  rw [assign]
  split
  next => split <;> rfl
  next => exact Function.update_of_ne h.symm _ _

theorem update_of_ne (h : update config g = .ok config') (hne : propertyName g.1 ≠ name) :
    config'.own name = config.own name := by
  rcases update_cases h with ⟨-, rfl⟩ | ⟨-, ⟨-, rfl⟩ | rfl⟩
  · exact Function.update_of_ne hne.symm _ _
  · rfl
  · exact Options.own_assign_of_ne hne g.2

/-- The group assigns no object to `__proto__`. -/
def Plain (g : Option String × Json) : Prop :=
  propertyName g.1 = "__proto__" → isObject g.2 = false

theorem update_proto (h : update config g = .ok config') (hplain : Plain g) :
    config'.proto = config.proto := by
  rcases update_cases h with ⟨-, rfl⟩ | ⟨-, ⟨-, rfl⟩ | rfl⟩
  · rfl
  · rfl
  · rw [Options.assign]
    split
    next hname => rw [hplain hname, if_neg Bool.false_ne_true]
    next => rfl

theorem update_self (h : update config g = .ok config') (hnone : config.proto = none)
    (hproto : propertyName g.1 = "__proto__" → g.2.isNull = true) :
    config'.own (propertyName g.1) = present g.2 := by
  rcases update_cases h with ⟨hnull, rfl⟩ | ⟨hnull, ⟨hholds, rfl⟩ | rfl⟩
  · rw [present, if_pos hnull]
    exact Function.update_self ..
  · rw [present, hnull, Options.own_of_holds hnone hholds]
    rfl
  · have hname : propertyName g.1 ≠ "__proto__" := fun hname => by
      rw [hproto hname] at hnull
      cases hnull
    rw [present, hnull, Options.assign, if_neg hname]
    exact Function.update_self ..

variable {l : List (Option String × Json)}

/-- A property without a group stays as it is. -/
theorem update_config_of_not (h : ∀ g ∈ l, propertyName g.1 ≠ name) :
    (update_config config l).own name = config.own name := by
  induction l generalizing config with
  | nil => rfl
  | cons g l ih =>
      rw [update_config]
      split
      next config' hok =>
        rw [ih fun g' hg' => h g' (List.mem_cons_of_mem _ hg')]
        exact update_of_ne hok (h g (List.mem_cons_self ..))
      next => rfl

theorem update_config_proto (h : ∀ g ∈ l, Plain g) :
    (update_config config l).proto = config.proto := by
  induction l generalizing config with
  | nil => rfl
  | cons g l ih =>
      rw [update_config]
      split
      next config' hok =>
        rw [ih fun g' hg' => h g' (List.mem_cons_of_mem _ hg')]
        exact update_proto hok (h g (List.mem_cons_self ..))
      next => rfl

/-- Where all groups of a property agree and no value ends the loop, the
property gets their value if there is one. -/
theorem update_config_apply {r : Option Json} (hnone : config.proto = none)
    (hstr : ∀ g ∈ l, JsVal.hasStr (some g.2) = true) (hplain : ∀ g ∈ l, Plain g)
    (h : ∀ g ∈ l, propertyName g.1 = name →
      (name = "__proto__" → g.2.isNull = true) ∧ present g.2 = r) :
    (update_config config l).own name =
      if ∃ g ∈ l, propertyName g.1 = name then r else config.own name := by
  induction l generalizing config with
  | nil => simp [update_config]
  | cons g l ih =>
      obtain ⟨hstr0, hstr⟩ := List.forall_mem_cons.mp hstr
      obtain ⟨hplain0, hplain⟩ := List.forall_mem_cons.mp hplain
      obtain ⟨h0, h⟩ := List.forall_mem_cons.mp h
      obtain ⟨config', hok⟩ : ∃ config', update config g = .ok config' := update_isOk hstr0
      rw [update_config, hok]
      refine (ih ((update_proto hok hplain0).trans hnone) hstr hplain h).trans ?_
      by_cases hl : ∃ g' ∈ l, propertyName g'.1 = name
      · obtain ⟨g', hg', hname'⟩ := hl
        rw [if_pos ⟨g', hg', hname'⟩, if_pos ⟨g', List.mem_cons_of_mem _ hg', hname'⟩]
      · rw [if_neg hl]
        by_cases hg : propertyName g.1 = name
        · obtain ⟨hproto, hr⟩ := h0 hg
          rw [if_pos ⟨g, List.mem_cons_self .., hg⟩, ← hr, ← hg]
          exact update_self hok hnone fun hname => hproto (hg.symm.trans hname)
        · rw [update_of_ne hok hg, if_neg]
          rintro ⟨g', hg', hname'⟩
          rcases List.mem_cons.mp hg' with rfl | hg'
          · exact hg hname'
          · exact hl ⟨g', hg', hname'⟩

end Update

/-! ## State -/

/-- An insert into the log. -/
structure Insert where
  worker : WorkerId
  /-- `none` if it cannot be cast, and then the insert fails. -/
  entry : Option ConfigEntry
  /-- The property that `del` removed. -/
  deletes : Option String
  pending : Bool

structure Load where
  worker : WorkerId
  /-- The log that was read, or `none` for an error. -/
  phase : Phase (Option ConfigLog)

structure State where
  log : ConfigLog
  config : WorkerId → Options
  inserts : List Insert
  loads : List Load
  /-- Ghost: the worker has applied a load of the complete log while no insert
  was in flight, and no insert was issued since. -/
  synced : WorkerId → Bool

def State.init : State where
  log := []
  config _ := defaults
  inserts := []
  loads := []
  synced _ := false

variable (C : Casts)

/-- No insert is in flight. -/
def State.quiet (s : State) : Bool := s.inserts.all fun i => !i.pending

/-- The insert that an act of worker `w` issues. -/
def startedInsert (w : WorkerId) (now : Time) (deletes : Option String) : Act → Option Insert
  | .query _ (.setConfig key value) => some ⟨w, ConfigEntry.cast C key value now, deletes, true⟩
  | _ => none

def State.issue (s : State) (new : List Insert) : State :=
  { s with inserts := s.inserts ++ new, synced := fun w => s.synced w && new.isEmpty }

/-- No entry so far has this time. -/
def State.unused (s : State) (now : Time) : Bool :=
  s.inserts.all fun i => i.entry.all fun e => e.time ≠ now

/-! ## Steps -/

inductive Event where
  | config_set (w : WorkerId) (client : Client) (payload : JsVal) (now : Time)
  | config_del (w : WorkerId) (client : Client) (payload : JsVal) (now : Time)
  | insertDb (n : ℕ) (ok : Bool)
  | load (w : WorkerId)
  | loadDb (n : ℕ) (ok : Bool)
  /-- The groups come in the order `keys`. -/
  | loadReply (n : ℕ) (keys : List (Option String))

/-- One step, if the event is enabled. -/
def step (s : State) : Event → Option State
  | .config_set w client payload now =>
      if s.unused now then
        some (s.issue ((config_set client payload).acts.filterMap (startedInsert C w now none)))
      else none
  | .config_del w client payload now =>
      if s.unused now then
        let deletes := payload.toStr.toOption
        let s := s.issue ((config_del client payload).acts.filterMap (startedInsert C w now deletes))
        match deletes with
        | some name => some { s with
            config := Function.update s.config w ((s.config w).delete name) }
        | none => some s
      else none
  | .insertDb n ok => s.inserts[n]?.bind fun i =>
      if i.pending then
        let s := { s with inserts := s.inserts.set n { i with pending := false } }
        if ok then i.entry.map fun e => { s with log := s.log ++ [e] } else some s
      else none
  | .load w => some { s with loads := s.loads ++ [⟨w, .sent⟩] }
  | .loadDb n ok => withSent Load.phase s.loads n fun l => some { s with
      loads := s.loads.set n { l with phase := .replied (if ok then some s.log else none) } }
  | .loadReply n keys => withReply Load.phase s.loads n fun l r =>
      let s := { s with loads := s.loads.set n { l with phase := .done r } }
      match r with
      | none => some s
      | some L => if keys.Perm L.keys then some { s with
          config := Function.update s.config l.worker
            (update_config (s.config l.worker) (L.load keys))
          synced := Function.update s.synced l.worker
            (decide (L.length = s.log.length) && s.quiet) }
        else none

/-! ## What a configuration should be -/

/-- The defaults, overridden by the last logged value of each key. -/
structure Agrees (L : ConfigLog) (config : Options) : Prop where
  logged : ∀ name e, L.IsLast (some name) e → config.own name = present e.value
  unlogged : ∀ name, (∀ e ∈ L, e.key ≠ some name) → config.own name = defaults.own name
  proto : config.proto = defaults.proto

/-- Two configurations that agree with one log are equal. -/
theorem Agrees.unique {L : ConfigLog} {config config' : Options}
    (hL : L.Pairwise fun a b => a.time ≠ b.time) (h : Agrees L config) (h' : Agrees L config') :
    config = config' := by
  refine Options.ext (funext fun name => ?_) (h.proto.trans h'.proto.symm)
  cases hlast : L.last (some name) with
  | none =>
      have hno := ConfigLog.last_eq_none.mp hlast
      exact (h.unlogged name hno).trans (h'.unlogged name hno).symm
  | some e =>
      have hlate := ConfigLog.isLast_of_last hL hlast
      exact (h.logged name e hlate).trans (h'.logged name e hlate).symm

/-- The property is named by some entry of the log. -/
def Logged (L : ConfigLog) (name : String) : Prop := ∃ e ∈ L, propertyName e.key = name

instance (L : ConfigLog) (name : String) : Decidable (Logged L name) :=
  inferInstanceAs (Decidable (∃ e ∈ L, propertyName e.key = name))

/-- The last values of the keys can be told apart as properties: without a key
there is only `null`, and then no key is the string `null`, and `__proto__` is
`null`. -/
def Keyed (L : ConfigLog) : Prop :=
  (∀ e ∈ L.last none, e.value.isNull ∧ ∀ e' ∈ L, e'.key ≠ some "null") ∧
    ∀ e ∈ L.last (some "__proto__"), e.value.isNull

instance (L : ConfigLog) : Decidable (Keyed L) :=
  inferInstanceAs (Decidable ((∀ e ∈ L.last none, e.value.isNull ∧ ∀ e' ∈ L, e'.key ≠ some "null") ∧
    ∀ e ∈ L.last (some "__proto__"), e.value.isNull))

/-- Every default that the worker has deleted was logged. -/
def Deleted (s : State) (w : WorkerId) : Prop :=
  ∀ i ∈ s.inserts, i.worker = w → ∀ name ∈ i.deletes, defaults.own name = none ∨ Logged s.log name

instance (s : State) (w : WorkerId) : Decidable (Deleted s w) :=
  inferInstanceAs (Decidable (∀ i ∈ s.inserts, i.worker = w → ∀ name ∈ i.deletes,
    defaults.own name = none ∨ Logged s.log name))

/-- No object is the last value of `__proto__`. -/
def Prototypeless (L : ConfigLog) : Prop :=
  ∀ e ∈ L.last (some "__proto__"), isObject e.value = false

instance (L : ConfigLog) : Decidable (Prototypeless L) :=
  inferInstanceAs (Decidable (∀ e ∈ L.last (some "__proto__"), isObject e.value = false))

/-- The last values of the keys have string forms. -/
def Printable (L : ConfigLog) : Prop :=
  ∀ key ∈ L.keys, ∀ e ∈ L.last key, JsVal.hasStr (some e.value) = true

instance (L : ConfigLog) : Decidable (Printable L) :=
  inferInstanceAs (Decidable (∀ key ∈ L.keys, ∀ e ∈ L.last key, JsVal.hasStr (some e.value) = true))

/-- No load that is applied assigns a prototype.  A load of the complete log
that is applied while no insert is in flight is applied to a worker whose
deletions took effect, and the log can be printed and read as properties. -/
def Settled (s : State) : Event → Prop
  | .loadReply n _ => ∀ l ∈ s.loads[n]?,
      (∀ r ∈ l.phase.outcome, ∀ L ∈ r, Prototypeless L) ∧
        (s.quiet → Deleted s l.worker ∧ Keyed s.log ∧ Printable s.log)
  | _ => True

instance (s : State) : (e : Event) → Decidable (Settled s e)
  | .loadReply n _ => inferInstanceAs (Decidable (∀ l ∈ s.loads[n]?,
      (∀ r ∈ l.phase.outcome, ∀ L ∈ r, Prototypeless L) ∧
        (s.quiet → Deleted s l.worker ∧ Keyed s.log ∧ Printable s.log)))
  | .config_set .. | .config_del .. | .insertDb .. | .load _ | .loadDb .. => isTrue trivial

/-! ## Invariants -/

/-- What a worker may hold for a property: anything once it is logged, and
otherwise the default unless the worker has deleted it. -/
def Explained (s : State) (w : WorkerId) (name : String) (v : Option Json) : Prop :=
  v = defaults.own name ∨ Logged s.log name ∨
    v = none ∧ ∃ i ∈ s.inserts, i.worker = w ∧ i.deletes = some name

def Traceable (s : State) : Prop := ∀ w name, Explained s w name ((s.config w).own name)

/-- Every entry was inserted once, at a time of its own. -/
structure Timed (s : State) : Prop where
  inserts : s.inserts.Pairwise fun i j => ∀ e ∈ i.entry, ∀ e' ∈ j.entry, e.time ≠ e'.time
  log : s.log.Pairwise fun a b => a.time ≠ b.time
  saved : ∀ e ∈ s.log, ∃ i ∈ s.inserts, i.entry = some e ∧ i.pending = false

/-- The loads have read a part of the log. -/
def Prefixes (s : State) : Prop :=
  ∀ l ∈ s.loads, ∀ L, l.phase.outcome = some (some L) → L <+: s.log

/-- A synchronized worker agrees with the log, and no insert is in flight. -/
def Synced (s : State) : Prop :=
  ∀ w, s.synced w = true → s.quiet = true ∧ Agrees s.log (s.config w)

structure Consistent (s : State) : Prop where
  traceable : Traceable s
  proto : ∀ w, (s.config w).proto = none
  timed : Timed s
  prefixes : Prefixes s
  synced : Synced s

/-! ## One step -/

section Step

variable {C : Casts} {s s' : State}

/-- `config_set` issues at most one insert. -/
theorem config_set_inserts (w : WorkerId) (client : Client) (payload : JsVal) (now : Time) :
    (config_set client payload).acts.filterMap (startedInsert C w now none) = [] ∨
      ∃ key value, (config_set client payload).acts.filterMap (startedInsert C w now none) =
        [⟨w, ConfigEntry.cast C key value now, none, true⟩] := by
  rw [config_set]
  cases hkey : payload.prop "key" with
  | error e => exact .inl rfl
  | ok key =>
      cases hvalue : payload.prop "value" with
      | error e => exact .inl rfl
      | ok value =>
          refine .inr ⟨key, value, ?_⟩
          simp only [JS.lift_ok_bind, info, JS.str]
          cases key.toStr with
          | error e => rfl
          | ok s => cases value.toStr <;> rfl

theorem config_del_inserts (w : WorkerId) (client : Client) (payload : JsVal) (now : Time)
    (deletes : Option String) :
    (config_del client payload).acts.filterMap (startedInsert C w now deletes) =
      [⟨w, ConfigEntry.cast C payload (some .null) now, deletes, true⟩] := by
  rw [config_del, info, JS.str]
  cases payload.toStr <;> rfl

theorem cast_time {key value : JsVal} {now : Time} {e : ConfigEntry}
    (h : ConfigEntry.cast C key value now = some e) : e.time = now := by
  obtain ⟨k, -, rfl⟩ := Option.map_eq_some_iff.mp h
  rfl

theorem Timed.issue (h : Timed s) {now : Time} (hnow : s.unused now = true) {i : Insert}
    (hi : ∀ e ∈ i.entry, e.time = now) : Timed (s.issue [i]) := by
  constructor
  · show (s.inserts ++ [i]).Pairwise _
    rw [List.pairwise_append]
    refine ⟨h.inserts, List.pairwise_singleton .., fun a ha b hb e he e' he' => ?_⟩
    rw [List.mem_singleton.mp hb] at he'
    rw [hi e' he']
    have hall := List.all_eq_true.mp hnow a ha
    rw [Option.mem_def.mp he] at hall
    simpa using hall
  · exact h.log
  · intro e he
    obtain ⟨j, hj, hentry, hpending⟩ := h.saved e he
    exact ⟨j, List.mem_append_left _ hj, hentry, hpending⟩

/-- A new insert ends all synchronization. -/
theorem issue_not_synced (i : Insert) (w : WorkerId) : (s.issue [i]).synced w = false :=
  Bool.and_false _

theorem Consistent.issue (h : Consistent s) {now : Time} (hnow : s.unused now = true) {i : Insert}
    (hi : ∀ e ∈ i.entry, e.time = now) : Consistent (s.issue [i]) := by
  constructor
  · intro w name
    rcases h.traceable w name with hdef | hlog | ⟨hnone, j, hj, hw⟩
    · exact .inl hdef
    · exact .inr (.inl hlog)
    · exact .inr (.inr ⟨hnone, j, List.mem_append_left _ hj, hw⟩)
  · exact h.proto
  · exact h.timed.issue hnow hi
  · exact h.prefixes
  · intro w hw
    rw [issue_not_synced] at hw
    cases hw

/-- The local deletion of `del`, once its insert is issued. -/
theorem Consistent.delete (h : Consistent s) {i : Insert} {w : WorkerId} {name : String}
    (hi : i ∈ s.inserts) (hw : i.worker = w) (hname : i.deletes = some name)
    (hsynced : s.synced w = false) :
    Consistent { s with
      config := Function.update s.config w ((s.config w).delete name) } := by
  constructor
  · intro w' name'
    show Explained s w' name' ((Function.update s.config w _ w').own name')
    by_cases hw' : w' = w
    · subst hw'
      rw [Function.update_self, Options.delete]
      by_cases hname' : name' = name
      · subst hname'
        refine .inr (.inr ⟨?_, i, hi, hw, hname⟩)
        exact Function.update_self ..
      · show Explained s w' name' (Function.update (s.config w').own name none name')
        rw [Function.update_of_ne hname']
        exact h.traceable w' name'
    · rw [Function.update_of_ne hw']
      exact h.traceable w' name'
  · intro w'
    show (Function.update s.config w _ w').proto = none
    by_cases hw' : w' = w
    · subst hw'
      rw [Function.update_self]
      exact h.proto w'
    · rw [Function.update_of_ne hw']
      exact h.proto w'
  · exact ⟨h.timed.inserts, h.timed.log, h.timed.saved⟩
  · exact h.prefixes
  · intro w' hw'
    have hne : w' ≠ w := by
      rintro rfl
      exact absurd (show s.synced w' = true from hw') (by rw [hsynced]; decide)
    obtain ⟨hquiet, hagrees⟩ := h.synced w' hw'
    refine ⟨hquiet, ?_⟩
    show Agrees s.log (Function.update s.config w _ w')
    rw [Function.update_of_ne hne]
    exact hagrees

theorem Consistent.config_set (h : Consistent s) {w : WorkerId} {client : Client} {payload : JsVal}
    {now : Time} (hs : step C s (.config_set w client payload now) = some s') : Consistent s' := by
  rw [step] at hs
  split at hs
  next hnow =>
    cases hs
    rcases config_set_inserts w client payload now with hnew | ⟨key, value, hnew⟩
    · have hsame : s.issue [] = s := by
        rw [State.issue, List.append_nil]
        simp
      rw [hnew, hsame]
      exact h
    · rw [hnew]
      exact h.issue hnow fun e he => cast_time he
  next => cases hs

theorem Consistent.config_del (h : Consistent s) {w : WorkerId} {client : Client} {payload : JsVal}
    {now : Time} (hs : step C s (.config_del w client payload now) = some s') : Consistent s' := by
  rw [step] at hs
  split at hs
  next hnow =>
    simp only [config_del_inserts] at hs
    generalize hdel : payload.toStr.toOption = deletes at hs
    let i : Insert := ⟨w, ConfigEntry.cast C payload (some .null) now, deletes, true⟩
    have hissue : Consistent (s.issue [i]) := h.issue hnow fun e he => cast_time he
    cases deletes with
    | none =>
        cases hs
        exact hissue
    | some name =>
        cases hs
        have hi : i ∈ (s.issue [i]).inserts := List.mem_append_right _ (List.mem_singleton_self i)
        exact hissue.delete hi rfl rfl (issue_not_synced i w)
  next => cases hs

theorem Consistent.insertDb (h : Consistent s) {n : ℕ} {ok : Bool}
    (hs : step C s (.insertDb n ok) = some s') : Consistent s' := by
  obtain ⟨i, hi, hs⟩ := Option.bind_eq_some_iff.mp hs
  split at hs
  next hpending =>
    have hmem : i ∈ s.inserts := Calls.mem_of_getElem? hi
    have hnot : ∀ w, s.synced w = false := by
      intro w
      by_contra hw
      have hquiet := (h.synced w (by simpa using hw)).1
      have hdone := List.all_eq_true.mp hquiet i hmem
      rw [hpending] at hdone
      cases hdone
    -- the insert is still there, and so are its worker and its property
    let i' : Insert := { i with pending := false }
    have hkeep : ∀ j ∈ s.inserts, j = i ∨ j ∈ s.inserts.set n i' := by
      intro j hj
      by_cases hji : j = i
      · exact .inl hji
      · exact .inr (Calls.mem_set_of_ne i' hi hj hji)
    have hi' : i' ∈ s.inserts.set n i' := Calls.mem_set_self i' hi
    have htraceable : ∀ L, s.log <+: L → Traceable { s with
        log := L, inserts := s.inserts.set n i' } := by
      intro L hL w name
      rcases h.traceable w name with hdef | ⟨e, he, hname⟩ | ⟨hnone, j, hj, hw, hdel⟩
      · exact .inl hdef
      · exact .inr (.inl ⟨e, hL.subset he, hname⟩)
      · rcases hkeep j hj with rfl | hj
        · exact .inr (.inr ⟨hnone, i', hi', hw, hdel⟩)
        · exact .inr (.inr ⟨hnone, j, hj, hw, hdel⟩)
    have hinserts : (s.inserts.set n i').Pairwise fun i j =>
        ∀ e ∈ i.entry, ∀ e' ∈ j.entry, e.time ≠ e'.time :=
      Calls.pairwise_set h.timed.inserts hi (fun _ hj => hj) fun _ hj => hj
    have hsaved : ∀ e ∈ s.log, ∃ j ∈ s.inserts.set n i', j.entry = some e ∧ j.pending = false := by
      intro e he
      obtain ⟨j, hj, hentry, hdone⟩ := h.timed.saved e he
      rcases hkeep j hj with rfl | hj
      · exact ⟨i', hi', hentry, rfl⟩
      · exact ⟨j, hj, hentry, hdone⟩
    cases ok with
    | false =>
        cases hs
        exact ⟨htraceable s.log (List.prefix_refl _), h.proto, ⟨hinserts, h.timed.log, hsaved⟩, h.prefixes,
          fun w hw => absurd hw (by rw [show s.synced w = false from hnot w]; decide)⟩
    | true =>
        obtain ⟨e, he, rfl⟩ := Option.map_eq_some_iff.mp hs
        have hprefix : s.log <+: s.log ++ [e] := List.prefix_append _ _
        refine ⟨htraceable _ hprefix, h.proto, ⟨hinserts, ?_, ?_⟩, ?_, fun w hw => ?_⟩
        · show (s.log ++ [e]).Pairwise _
          rw [List.pairwise_append]
          refine ⟨h.timed.log, List.pairwise_singleton .., fun a ha b hb => ?_⟩
          rw [List.mem_singleton.mp hb]
          obtain ⟨j, hj, hentry, hdone⟩ := h.timed.saved a ha
          have hne : j ≠ i := by
            rintro rfl
            rw [hpending] at hdone
            cases hdone
          have : Std.Symm fun i j : Insert => ∀ e ∈ i.entry, ∀ e' ∈ j.entry, e.time ≠ e'.time :=
            ⟨fun _ _ h e he e' he' => (h e' he' e he).symm⟩
          exact h.timed.inserts.forall hj hmem hne a hentry e he
        · exact Calls.forall_mem_concat hsaved ⟨i', hi', he, rfl⟩
        · exact fun l hl L hL => (h.prefixes l hl L hL).trans hprefix
        · exact absurd hw (by rw [show s.synced w = false from hnot w]; decide)
  next => cases hs

theorem Consistent.load (h : Consistent s) {w : WorkerId} (hs : step C s (.load w) = some s') :
    Consistent s' := by
  cases hs
  refine ⟨h.traceable, h.proto, ⟨h.timed.inserts, h.timed.log, h.timed.saved⟩, ?_, h.synced⟩
  exact Calls.forall_mem_concat h.prefixes fun L hL => by cases hL

theorem Consistent.loadDb (h : Consistent s) {n : ℕ} {ok : Bool}
    (hs : step C s (.loadDb n ok) = some s') : Consistent s' := by
  obtain ⟨l, hl, -, hs⟩ := Calls.withSent_eq_some.mp hs
  cases hs
  refine ⟨h.traceable, h.proto, ⟨h.timed.inserts, h.timed.log, h.timed.saved⟩, ?_, h.synced⟩
  refine Calls.forall_mem_set n h.prefixes fun L hL => ?_
  cases ok with
  | false => cases hL
  | true =>
      cases hL
      exact List.prefix_refl _

theorem propertyName_eq {key : Option String} {name : String} (h : propertyName key = name) :
    key = some name ∨ key = none ∧ name = "null" := by
  cases key with
  | none => exact .inr ⟨rfl, h.symm⟩
  | some k => exact .inl (congrArg some h)

section Load

variable {L : ConfigLog} {keys : List (Option String)} (hkeys : keys.Perm L.keys)

include hkeys

/-- A logged property has a group. -/
theorem Logged.group {name : String} (h : Logged L name) :
    ∃ g ∈ L.load keys, propertyName g.1 = name := by
  obtain ⟨e, he, hname⟩ := h
  cases hlast : L.last e.key with
  | none => exact absurd rfl (ConfigLog.last_eq_none.mp hlast e he)
  | some e' => exact ⟨(e.key, e'.value), (ConfigLog.mem_load hkeys).mpr ⟨e', hlast, rfl⟩, hname⟩

/-- Only the key `__proto__` names that property. -/
theorem Prototypeless.plain (h : Prototypeless L) : ∀ g ∈ L.load keys, Plain g := by
  intro g hg hname
  obtain ⟨e, he, hvalue⟩ := (ConfigLog.mem_load hkeys).mp hg
  rcases propertyName_eq hname with hkey | ⟨-, hnull⟩
  · rw [hkey] at he
    rw [← hvalue]
    exact h e he
  · simp at hnull

theorem Printable.hasStr (h : Printable L) : ∀ g ∈ L.load keys, JsVal.hasStr (some g.2) = true := by
  intro g hg
  obtain ⟨e, he, hvalue⟩ := (ConfigLog.mem_load hkeys).mp hg
  rw [← hvalue]
  exact h _ (ConfigLog.mem_keys_of_last he) e he

end Load

/-- A worker that applies a load of the complete log agrees with the log. -/
theorem Consistent.agrees (h : Consistent s) {w : WorkerId} {keys : List (Option String)}
    (hkeys : keys.Perm s.log.keys) (hproto : Prototypeless s.log) (hdeleted : Deleted s w)
    (hkeyed : Keyed s.log) (hprintable : Printable s.log) :
    Agrees s.log (update_config (s.config w) (s.log.load keys)) := by
  have happly : ∀ {name r}, (∀ g ∈ s.log.load keys, propertyName g.1 = name →
      (name = "__proto__" → g.2.isNull = true) ∧ present g.2 = r) →
        (update_config (s.config w) (s.log.load keys)).own name =
          if ∃ g ∈ s.log.load keys, propertyName g.1 = name then r else (s.config w).own name :=
    update_config_apply (h.proto w) (hprintable.hasStr hkeys) (hproto.plain hkeys)
  constructor
  · intro name e he
    have hlast : s.log.last (some name) = some e := he.last_eq
    have hgroups : ∀ g ∈ s.log.load keys, propertyName g.1 = name →
        (name = "__proto__" → g.2.isNull) ∧ present g.2 = present e.value := by
      intro g hg hname
      obtain ⟨e', he', hvalue⟩ := (ConfigLog.mem_load hkeys).mp hg
      rcases propertyName_eq hname with hkey | ⟨hkey, rfl⟩
      · rw [hkey, hlast] at he'
        cases he'
        rw [← hvalue]
        refine ⟨fun hproto => ?_, rfl⟩
        subst hproto
        exact hkeyed.2 e hlast
      · rw [hkey] at he'
        exact absurd he.2.1 ((hkeyed.1 e' he').2 e he.1)
    rw [happly hgroups, if_pos]
    exact ⟨(some name, e.value), (ConfigLog.mem_load hkeys).mpr ⟨e, hlast, rfl⟩, rfl⟩
  · intro name hno
    have hgroups : ∀ g ∈ s.log.load keys, propertyName g.1 = name →
        name = "null" ∧ g.2.isNull := by
      intro g hg hname
      obtain ⟨e, he, hvalue⟩ := (ConfigLog.mem_load hkeys).mp hg
      rcases propertyName_eq hname with hkey | ⟨hkey, hnull⟩
      · rw [hkey] at he
        obtain ⟨hmem, hkey'⟩ := ConfigLog.mem_of_last he
        exact absurd hkey' (hno e hmem)
      · rw [hkey] at he
        rw [← hvalue]
        exact ⟨hnull, (hkeyed.1 e he).1⟩
    have hnone : ∀ g ∈ s.log.load keys, propertyName g.1 = name →
        (name = "__proto__" → g.2.isNull) ∧ present g.2 = none := by
      intro g hg hname
      obtain ⟨-, hnull⟩ := hgroups g hg hname
      exact ⟨fun _ => hnull, if_pos hnull⟩
    rw [happly hnone]
    split
    next hexists =>
      obtain ⟨g, hg, hname⟩ := hexists
      rw [(hgroups g hg hname).1]
      rfl
    next hexists =>
      rcases h.traceable w name with hdef | hlogged | ⟨hgone, i, hi, hw, hdel⟩
      · exact hdef
      · exact absurd (hlogged.group hkeys) hexists
      · rcases hdeleted i hi hw name hdel with hdef | hlogged
        · exact hgone.trans hdef.symm
        · exact absurd (hlogged.group hkeys) hexists
  · exact (update_config_proto (hproto.plain hkeys)).trans (h.proto w)

theorem Consistent.loadReply (h : Consistent s) {n : ℕ} {keys : List (Option String)}
    (hok : Settled s (.loadReply n keys)) (hs : step C s (.loadReply n keys) = some s') :
    Consistent s' := by
  obtain ⟨l, r, hl, hphase, hs⟩ := Calls.withReply_eq_some.mp hs
  have hmem : l ∈ s.loads := Calls.mem_of_getElem? hl
  have hprefixes : ∀ l' ∈ s.loads.set n { l with phase := .done r }, ∀ L,
      l'.phase.outcome = some (some L) → L <+: s.log := by
    refine Calls.forall_mem_set n h.prefixes fun L hL => h.prefixes l hmem L ?_
    rw [hphase]
    exact hL
  cases r with
  | none =>
      cases hs
      exact ⟨h.traceable, h.proto, ⟨h.timed.inserts, h.timed.log, h.timed.saved⟩, hprefixes,
        h.synced⟩
  | some L =>
      dsimp only at hs
      split at hs
      next hkeys =>
        cases hs
        have houtcome : l.phase.outcome = some (some L) := by rw [hphase]; rfl
        have hL : L <+: s.log := h.prefixes l hmem L houtcome
        have hproto : Prototypeless L := (hok l hl).1 _ houtcome L rfl
        refine ⟨?_, ?_, ⟨h.timed.inserts, h.timed.log, h.timed.saved⟩, hprefixes, ?_⟩
        · intro w name
          show Explained s w name ((Function.update s.config l.worker _ w).own name)
          by_cases hw : w = l.worker
          · subst hw
            rw [Function.update_self]
            by_cases hgroup : ∃ g ∈ L.load keys, propertyName g.1 = name
            · obtain ⟨g, hg, hname⟩ := hgroup
              obtain ⟨e, he, -⟩ := (ConfigLog.mem_load hkeys).mp hg
              obtain ⟨hmem', hkey⟩ := ConfigLog.mem_of_last he
              exact .inr (.inl ⟨e, hL.subset hmem', by rw [hkey, hname]⟩)
            · rw [update_config_of_not fun g hg hname => hgroup ⟨g, hg, hname⟩]
              exact h.traceable l.worker name
          · rw [Function.update_of_ne hw]
            exact h.traceable w name
        · intro w
          show (Function.update s.config l.worker _ w).proto = none
          by_cases hw : w = l.worker
          · subst hw
            rw [Function.update_self, update_config_proto (hproto.plain hkeys)]
            exact h.proto l.worker
          · rw [Function.update_of_ne hw]
            exact h.proto w
        · intro w hsynced
          show s.quiet = true ∧ Agrees s.log (Function.update s.config l.worker _ w)
          by_cases hw : w = l.worker
          · subst hw
            have hnow : decide (L.length = s.log.length) = true ∧ s.quiet = true := by
              have hvalue : Function.update s.synced l.worker
                  (decide (L.length = s.log.length) && s.quiet) l.worker = true := hsynced
              rwa [Function.update_self, Bool.and_eq_true] at hvalue
            have hcomplete : L = s.log := hL.eq_of_length (of_decide_eq_true hnow.1)
            obtain ⟨hdeleted, hkeyed, hprintable⟩ := (hok l hl).2 hnow.2
            rw [Function.update_self]
            subst hcomplete
            exact ⟨hnow.2, h.agrees hkeys hproto hdeleted hkeyed hprintable⟩
          · have hbefore : s.synced w = true := by
              have hvalue : Function.update s.synced l.worker _ w = true := hsynced
              rwa [Function.update_of_ne hw] at hvalue
            rw [Function.update_of_ne hw]
            exact h.synced w hbefore
      next => cases hs

theorem Consistent.step (h : Consistent s) {e : Event} (hok : Settled s e)
    (hs : step C s e = some s') : Consistent s' := by
  cases e with
  | config_set w client payload now => exact h.config_set hs
  | config_del w client payload now => exact h.config_del hs
  | insertDb n ok => exact h.insertDb hs
  | load w => exact h.load hs
  | loadDb n ok => exact h.loadDb hs
  | loadReply n keys => exact h.loadReply hok hs

theorem Consistent.init : Consistent .init where
  traceable _ _ := .inl rfl
  proto _ := rfl
  timed := ⟨.nil, .nil, fun _ he => absurd he List.not_mem_nil⟩
  prefixes _ hl := absurd hl List.not_mem_nil
  synced _ hw := by cases hw

end Step

/-! ## Runs -/

/-- In every run whose loads meet `Settled`, a worker that is synchronized holds
the defaults overridden by the last logged values, and any two such workers hold
equal configurations. -/
theorem synced_agrees {C : Casts} {s : State} (run : Run (step C) Settled .init s) {w : WorkerId}
    (hw : s.synced w = true) :
    Agrees s.log (s.config w) ∧ ∀ w', s.synced w' = true → s.config w = s.config w' := by
  have h : Consistent s := run.invariant Consistent.init fun _ _ _ h hok hs => h.step hok hs
  obtain ⟨-, hagrees⟩ := h.synced w hw
  refine ⟨hagrees, fun w' hw' => ?_⟩
  exact hagrees.unique h.timed.log (h.synced w' hw').2

section Sample

/-- Worker `0` sets an option and both workers load it. -/
def setAndLoad : List Event :=
  [.config_set 0 ⟨0, none⟩ (some (.obj [("key", .str "poll_max"), ("value", .str "10")])) 1,
    .insertDb 0 true, .load 0, .load 1, .loadDb 0 true, .loadDb 1 true,
    .loadReply 0 [some "poll_max"], .loadReply 1 [some "poll_max"]]

theorem synced_agrees_setAndLoad : ∃ s, Run (step Ext.simple.toCasts) Settled .init s ∧
    Agrees s.log (s.config 0) ∧ s.config 0 = s.config 1 := by
  have hexec : (Runs.exec (step Ext.simple.toCasts) Settled .init setAndLoad).map
      (fun s => (s.synced 0, s.synced 1)) = some (true, true) := by decide +kernel
  obtain ⟨s, run, h⟩ := Runs.exists_run_of_exec setAndLoad hexec
  obtain ⟨h0, h1⟩ := Prod.mk.inj h
  obtain ⟨hagrees, hequal⟩ := synced_agrees run h0
  exact ⟨s, run, hagrees, hequal 1 h1⟩

/-- Worker `0` deletes an option, the insert fails, and the worker loads. -/
def deleteAndLoad : List Event :=
  [.config_del 0 ⟨0, none⟩ (some (.str "poll_max")) 1, .insertDb 0 false, .load 0,
    .loadDb 0 true, .loadReply 0 []]

/-- The worker lacks the option, although no entry of the log deletes it. -/
theorem failed_del_diverges : ¬ ∀ (C : Casts) (s : State), AnyRun (step C) .init s → ∀ w, s.synced w = true →
    Agrees s.log (s.config w) := by
  intro claim
  have hexec : (Runs.exec (step Ext.simple.toCasts) (fun _ _ => True) .init deleteAndLoad).map
      (fun s => (s.synced 0, s.log.length, ((s.config 0).own "poll_max").isSome)) =
        some (true, 0, false) := by decide +kernel
  obtain ⟨s, run, h⟩ := Runs.exists_run_of_exec deleteAndLoad hexec
  simp only [Prod.mk.injEq] at h
  obtain ⟨hsynced, hlength, hnone⟩ := h
  have hlog : s.log = [] := List.eq_nil_of_length_eq_zero hlength
  have hdef := (claim _ s run 0 hsynced).unlogged "poll_max" (by rw [hlog]; exact fun e he => by cases he)
  rw [hdef] at hnone
  cases hnone

end Sample

end SchuleAlsStaat.ConfigSync
