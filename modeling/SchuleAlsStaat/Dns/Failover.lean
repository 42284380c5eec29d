import Mathlib.Data.List.Nodup
import Mathlib.Data.Rat.Floor

/-!
# The failover pools of the DNS server

A name of the lookup table has an address or a pool of addresses with the paths at
which they are probed.  A heartbeat probes the pools one after the other, and the
callbacks of the probes note which addresses work.  A request for a pool is answered
with one of these at random.

The loop of the heartbeat returns at the first entry that is no pool, so the pools
after it are not probed.  `SkippedAgree` says when that makes no difference.
-/

namespace SchuleAlsStaat.Dns

/-- The properties of an object with truth values, in the order of enumeration. -/
abbrev Flags := List (String × Bool)

/-- `flags[key] = value`. -/
def Flags.assign (key : String) (value : Bool) : Flags → Flags
  | [] => [(key, value)]
  | (k, v) :: flags =>
      if k = key then (k, value) :: flags else (k, v) :: Flags.assign key value flags

/-- An entry of the lookup table. -/
inductive Entry where
  | address (ip : String)
  /-- `failover` holds the addresses with their paths. -/
  | pool (failover : List (String × String)) (working : Option Flags)
deriving DecidableEq

/-- `lookup`, in the order of enumeration. -/
abbrev Lookup := List (String × Entry)

/-! ## A heartbeat -/

/-- The arguments of `heartbeat_probe`. -/
structure Probe where
  url : String
  ip : String
  name : String
deriving DecidableEq

/-- The callbacks of a probe, on `lookup[name].working`. -/
def Flags.record (ip : String) (success : Bool) (working : Flags) : Flags :=
  if success then
    if working.lookup ip = some true then working else working.assign ip true
  else if working.lookup ip = some false then working else working.assign ip false

/-- A probe was only made after its entry has got `working`. -/
def Entry.record (ip : String) (success : Bool) : Entry → Entry
  | .pool failover (some working) => .pool failover (some (working.record ip success))
  | e => e

/-- A probe completes. -/
def complete (lookup : Lookup) (p : Probe) (success : Bool) : Lookup :=
  lookup.map fun e => if e.1 = p.name then (e.1, e.2.record p.ip success) else e

def probesOf (name : String) (failover : List (String × String)) : List Probe :=
  failover.map fun f => ⟨f.2, f.1, name⟩

/-- The loop over the table, with the probes that are started. -/
def failover_heartbeat : Lookup → Lookup × List Probe
  | [] => ([], [])
  | (name, .address ip) :: lookup => ((name, .address ip) :: lookup, [])
  | (name, .pool failover working) :: lookup =>
      let (lookup, probes) := failover_heartbeat lookup
      ((name, .pool failover (some (working.getD []))) :: lookup, probesOf name failover ++ probes)

/-- A heartbeat whose probes complete in the order `order`. -/
def round (up : String → String → Bool) (lookup : Lookup) (order : List Probe) : Lookup :=
  order.foldl (fun lookup p => complete lookup p (up p.name p.ip)) (failover_heartbeat lookup).1

/-- `failover_address` on the `working` of an entry.  `random` is `Math.random()`. -/
def failover_address (working : Option Flags) (random : ℚ) : Option String :=
  let trueworking := ((working.getD []).filter Prod.snd).map Prod.fst
  if trueworking.length = 0 then none
  else trueworking[⌊random * trueworking.length⌋.toNat]?

/-! ## Flags -/

section Flags

variable {key k : String} {value : Bool} {flags : Flags}

theorem Flags.lookup_cons (key : String) (value : Bool) (flags : Flags) (k : String) :
    List.lookup k ((key, value) :: flags) = if k = key then some value else flags.lookup k := by
  by_cases h : k = key
  · simp [h]
  · rw [List.lookup_cons, beq_eq_false_iff_ne.mpr h, if_neg h]

theorem Flags.lookup_assign :
    (flags.assign key value).lookup k = if k = key then some value else flags.lookup k := by
  induction flags with
  | nil => rw [assign, lookup_cons]
  | cons f flags ih =>
      obtain ⟨k', v⟩ := f
      rw [assign]
      by_cases hk : k' = key
      · subst hk
        rw [if_pos rfl, lookup_cons, lookup_cons]
        split <;> rfl
      · rw [if_neg hk, lookup_cons, ih, lookup_cons]
        by_cases h : k = k'
        · subst h
          rw [if_pos rfl, if_neg hk, if_pos rfl]
        · rw [if_neg h, if_neg h]

theorem Flags.keys_assign :
    (flags.assign key value).map Prod.fst =
      if key ∈ flags.map Prod.fst then flags.map Prod.fst else flags.map Prod.fst ++ [key] := by
  induction flags with
  | nil => rfl
  | cons f flags ih =>
      obtain ⟨k', v⟩ := f
      rw [assign]
      by_cases hk : k' = key
      · simp [hk]
      · rw [if_neg hk, List.map_cons, ih, List.map_cons]
        by_cases h : key ∈ flags.map Prod.fst
        · rw [if_pos h, if_pos (List.mem_cons_of_mem _ h)]
        · rw [if_neg h, if_neg (by simpa [Ne.symm hk] using h)]
          rfl

/-- The keys are distinct and belong to a pool. -/
structure Flags.KeysOf (flags : Flags) (ips : List String) : Prop where
  nodup : (flags.map Prod.fst).Nodup
  subset : ∀ ip ∈ flags.map Prod.fst, ip ∈ ips

theorem Flags.KeysOf.assign {ips : List String} (h : flags.KeysOf ips) (hkey : key ∈ ips) :
    (flags.assign key value).KeysOf ips := by
  constructor
  · rw [keys_assign]
    split
    next => exact h.nodup
    next hnew =>
      refine List.nodup_append.mpr ⟨h.nodup, List.nodup_singleton key, ?_⟩
      rintro ip hip _ hip' rfl
      rw [List.mem_singleton.mp hip'] at hip
      exact hnew hip
  · intro ip hip
    rw [keys_assign] at hip
    split at hip
    next => exact h.subset ip hip
    next =>
      rcases List.mem_append.mp hip with hip | hip
      · exact h.subset ip hip
      · rwa [List.mem_singleton.mp hip]

/-- A callback notes the outcome of the probe. -/
theorem Flags.lookup_record :
    (flags.record key value).lookup k = if k = key then some value else flags.lookup k := by
  have unchanged (h : flags.lookup key = some value) :
      flags.lookup k = if k = key then some value else flags.lookup k := by
    split
    next hk => rw [hk, h]
    next => rfl
  cases value with
  | true =>
      rw [record, if_pos rfl]
      split
      next h => exact unchanged h
      next => exact lookup_assign
  | false =>
      rw [record, if_neg Bool.false_ne_true]
      split
      next h => exact unchanged h
      next => exact lookup_assign

theorem Flags.KeysOf.record {ips : List String} (h : flags.KeysOf ips) (hkey : key ∈ ips) :
    (flags.record key value).KeysOf ips := by
  rw [Flags.record]
  split <;> split
  · exact h
  · exact h.assign hkey
  · exact h
  · exact h.assign hkey

/-- The outcomes of several probes. -/
def Flags.recordAll (up : String → Bool) (flags : Flags) (ips : List String) : Flags :=
  ips.foldl (fun flags ip => flags.record ip (up ip)) flags

theorem Flags.lookup_recordAll (up : String → Bool) (flags : Flags) (ips : List String) :
    (flags.recordAll up ips).lookup k = if k ∈ ips then some (up k) else flags.lookup k := by
  induction ips generalizing flags with
  | nil => rfl
  | cons ip ips ih =>
      rw [recordAll, List.foldl_cons, ← recordAll, ih, lookup_record]
      by_cases hk : k = ip
      · simp [hk]
      · simp [hk]

theorem Flags.KeysOf.recordAll {up : String → Bool} {ips all : List String}
    (h : flags.KeysOf all) (hips : ∀ ip ∈ ips, ip ∈ all) :
    (flags.recordAll up ips).KeysOf all := by
  induction ips generalizing flags with
  | nil => exact h
  | cons ip ips ih =>
      obtain ⟨hip, hips⟩ := List.forall_mem_cons.mp hips
      exact ih (h.record hip) hips

/-- An address is among the working ones when its flag is set. -/
theorem Flags.mem_trueworking (h : (flags.map Prod.fst).Nodup) :
    k ∈ (flags.filter Prod.snd).map Prod.fst ↔ flags.lookup k = some true := by
  induction flags with
  | nil => simp
  | cons f flags ih =>
      obtain ⟨k', v⟩ := f
      obtain ⟨hk', hrest⟩ := List.nodup_cons.mp h
      rw [lookup_cons]
      by_cases hk : k = k'
      · subst hk
        have hnot : k ∉ (flags.filter Prod.snd).map Prod.fst := by
          intro hmem
          obtain ⟨f, hf, rfl⟩ := List.mem_map.mp hmem
          exact hk' (List.mem_map.mpr ⟨f, List.mem_of_mem_filter hf, rfl⟩)
        cases v with
        | true => simp
        | false => simpa using hnot
      · rw [if_neg hk, ← ih hrest]
        cases v <;> simp [hk]

end Flags

/-! ## A round -/

section Round

variable {up : String → String → Bool} {lookup : Lookup} {order : List Probe}

/-- The addresses of a name whose probes complete. -/
def ipsOf (name : String) (order : List Probe) : List String :=
  (order.filter fun p => p.name = name).map Probe.ip

/-- What the probes of a name leave of its entry. -/
def Entry.recordAll (up : String → Bool) (ips : List String) : Entry → Entry
  | .pool failover (some working) => .pool failover (some (working.recordAll up ips))
  | e => e

/-- Every entry is changed by its own probes only. -/
theorem foldl_complete (lookup : Lookup) (order : List Probe) :
    order.foldl (fun lookup p => complete lookup p (up p.name p.ip)) lookup =
      lookup.map fun e => (e.1, e.2.recordAll (up e.1) (ipsOf e.1 order)) := by
  induction order generalizing lookup with
  | nil =>
      conv_lhs => rw [List.foldl_nil, ← List.map_id lookup]
      refine List.map_congr_left fun e _ => ?_
      obtain ⟨name, _ | ⟨failover, _ | working⟩⟩ := e <;> rfl
  | cons p order ih =>
      rw [List.foldl_cons, ih, complete, List.map_map]
      refine List.map_congr_left fun e _ => ?_
      obtain ⟨name, entry⟩ := e
      by_cases hname : name = p.name
      · subst hname
        simp only [Function.comp_apply, if_true, ipsOf, decide_true, List.filter_cons_of_pos,
          List.map_cons]
        obtain _ | ⟨failover, _ | working⟩ := entry <;> rfl
      · have hp : ipsOf name (p :: order) = ipsOf name order := by
          rw [ipsOf, List.filter_cons_of_neg (by simpa using Ne.symm hname)]
          rfl
        simp only [Function.comp_apply, if_neg hname, hp]

/-- An entry is a pool. -/
def isPool : String × Entry → Bool
  | (_, .pool _ _) => true
  | _ => false

/-- The entries that the loop comes to. -/
def probed (lookup : Lookup) : Lookup := lookup.takeWhile isPool

/-- The entries from the first address on, where the loop returns. -/
def skipped (lookup : Lookup) : Lookup := lookup.dropWhile isPool

/-- An entry gets `working`. -/
def Entry.init : Entry → Entry
  | .pool failover working => .pool failover (some (working.getD []))
  | e => e

/-- The probes of an entry. -/
def Entry.probes (name : String) : Entry → List Probe
  | .pool failover _ => probesOf name failover
  | _ => []

theorem failover_heartbeat_eq (lookup : Lookup) :
    failover_heartbeat lookup =
      ((probed lookup).map (fun e => (e.1, e.2.init)) ++ skipped lookup,
        (probed lookup).flatMap fun e => e.2.probes e.1) := by
  induction lookup with
  | nil => rfl
  | cons e lookup ih =>
      obtain ⟨name, ip | ⟨failover, working⟩⟩ := e
      · rfl
      · rw [failover_heartbeat, ih]
        rfl

theorem mem_probesOf {name : String} {failover : List (String × String)} {p : Probe} :
    p ∈ probesOf name failover ↔ p.name = name ∧ (p.ip, p.url) ∈ failover := by
  rw [probesOf, List.mem_map]
  constructor
  · rintro ⟨f, hf, rfl⟩
    exact ⟨rfl, hf⟩
  · rintro ⟨rfl, hf⟩
    exact ⟨_, hf, rfl⟩

/-- The probes of a name are those of the pools with this name that the loop comes to. -/
theorem mem_ipsOf (horder : order.Perm (failover_heartbeat lookup).2) {name ip : String} :
    ip ∈ ipsOf name order ↔ ∃ failover working,
      (name, .pool failover working) ∈ probed lookup ∧ ip ∈ failover.map Prod.fst := by
  simp only [ipsOf, List.mem_map, List.mem_filter, decide_eq_true_eq, horder.mem_iff,
    failover_heartbeat_eq, List.mem_flatMap]
  constructor
  · rintro ⟨p, ⟨⟨⟨name', entry⟩, he, hp⟩, rfl⟩, rfl⟩
    cases entry with
    | address => cases hp
    | pool failover working =>
        obtain ⟨hname, hf⟩ := mem_probesOf.mp hp
        refine ⟨failover, working, ?_, (p.ip, p.url), hf, rfl⟩
        rw [hname]
        exact he
  · rintro ⟨failover, working, he, ⟨ip, url⟩, hf, rfl⟩
    exact ⟨⟨url, ip, name⟩, ⟨⟨_, he, mem_probesOf.mpr ⟨rfl, hf⟩⟩, rfl⟩, rfl⟩

theorem probed_append_skipped (lookup : Lookup) : probed lookup ++ skipped lookup = lookup :=
  List.takeWhile_append_dropWhile

/-- The pools after a round: those that were probed, and those that were skipped. -/
theorem mem_round (hnames : (lookup.map Prod.fst).Nodup)
    (horder : order.Perm (failover_heartbeat lookup).2) {name : String}
    {failover : List (String × String)} {working' : Option Flags} :
    (name, .pool failover working') ∈ round up lookup order ↔
      (∃ working, (name, .pool failover working) ∈ probed lookup ∧
        working' = some ((working.getD []).recordAll (up name) (ipsOf name order))) ∨
      (name, .pool failover working') ∈ skipped lookup := by
  have skip : ∀ e ∈ skipped lookup, ipsOf e.1 order = [] := by
    intro e he
    rw [List.eq_nil_iff_forall_not_mem]
    intro ip hip
    obtain ⟨failover, working, hprobed, -⟩ := (mem_ipsOf horder).mp hip
    rw [← probed_append_skipped lookup, List.map_append, List.nodup_append] at hnames
    exact hnames.2.2 e.1 (List.mem_map.mpr ⟨_, hprobed, rfl⟩) e.1
      (List.mem_map.mpr ⟨e, he, rfl⟩) rfl
  have unchanged : (skipped lookup).map (fun e => (e.1, e.2.recordAll (up e.1) (ipsOf e.1 order))) =
      skipped lookup := by
    conv_rhs => rw [← List.map_id (skipped lookup)]
    refine List.map_congr_left fun e he => ?_
    rw [skip e he]
    obtain ⟨name, _ | ⟨failover, _ | working⟩⟩ := e <;> rfl
  rw [round, foldl_complete, failover_heartbeat_eq, List.map_append, unchanged, List.mem_append,
    List.map_map, List.mem_map]
  refine or_congr_left ?_
  constructor
  · rintro ⟨⟨name', entry⟩, he, heq⟩
    cases entry with
    | address => cases heq
    | pool failover' working =>
        cases heq
        exact ⟨working, he, rfl⟩
  · rintro ⟨working, he, rfl⟩
    exact ⟨_, he, rfl⟩

end Round

/-! ## Coverage -/

/-- The working addresses are those of the pool whose probes succeed. -/
def Agrees (up : String → Bool) (failover : List (String × String)) (working : Option Flags) :
    Prop :=
  ∀ ip, (working.getD []).lookup ip = some true ↔ ip ∈ failover.map Prod.fst ∧ up ip = true

/-- A request for the pool is answered with one of them, or not if there is none. -/
def AnswersOne (up : String → Bool) (failover : List (String × String))
    (working : Option Flags) : Prop :=
  ∀ random : ℚ, 0 ≤ random → random < 1 →
    match failover_address working random with
    | some ip => ip ∈ failover.map Prod.fst ∧ up ip = true
    | none => ∀ ip ∈ failover.map Prod.fst, up ip = false

/-- Both hold of every pool. -/
def Covered (up : String → String → Bool) (lookup : Lookup) : Prop :=
  ∀ name failover working, (name, .pool failover working) ∈ lookup →
    Agrees (up name) failover working ∧ AnswersOne (up name) failover working

/-- The pools behind the first address have not changed since they were recorded. -/
def SkippedAgree (up : String → String → Bool) (lookup : Lookup) : Prop :=
  ∀ name failover working, (name, .pool failover working) ∈ skipped lookup →
    Agrees (up name) failover working

/-- The names are distinct, and addresses are recorded for their pool. -/
structure WellFormed (lookup : Lookup) : Prop where
  names : (lookup.map Prod.fst).Nodup
  working : ∀ name failover working, (name, .pool failover working) ∈ lookup →
    (working.getD []).KeysOf (failover.map Prod.fst)

/-- The table between rounds. -/
inductive Reachable : Lookup → Prop where
  | start {lookup : Lookup} : (lookup.map Prod.fst).Nodup →
      (∀ name failover working, (name, .pool failover working) ∈ lookup → working = none) →
      Reachable lookup
  | round {lookup : Lookup} {up : String → String → Bool} {order : List Probe} :
      Reachable lookup → order.Perm (failover_heartbeat lookup).2 →
      Reachable (round up lookup order)

section Coverage

variable {up : String → String → Bool} {lookup : Lookup} {order : List Probe}

theorem names_round : (round up lookup order).map Prod.fst = lookup.map Prod.fst := by
  conv_rhs => rw [← probed_append_skipped lookup, List.map_append]
  rw [round, foldl_complete, failover_heartbeat_eq]
  simp [Function.comp_def]

/-- A pool that the loop comes to is probed at its own addresses. -/
theorem WellFormed.mem_ipsOf (h : WellFormed lookup)
    (horder : order.Perm (failover_heartbeat lookup).2) {name : String}
    {failover : List (String × String)} {working : Option Flags}
    (hprobed : (name, .pool failover working) ∈ probed lookup) (ip : String) :
    ip ∈ ipsOf name order ↔ ip ∈ failover.map Prod.fst := by
  rw [Dns.mem_ipsOf horder]
  constructor
  · rintro ⟨failover', working', hprobed', hip⟩
    have hlookup : (name, Entry.pool failover working) ∈ lookup :=
      List.takeWhile_subset _ hprobed
    have hlookup' : (name, Entry.pool failover' working') ∈ lookup :=
      List.takeWhile_subset _ hprobed'
    cases List.inj_on_of_nodup_map h.names hlookup hlookup' rfl
    exact hip
  · intro hip
    exact ⟨failover, working, hprobed, hip⟩

/-- A round keeps the table well formed. -/
theorem WellFormed.round (h : WellFormed lookup)
    (horder : order.Perm (failover_heartbeat lookup).2) : WellFormed (round up lookup order) := by
  constructor
  · rw [names_round]
    exact h.names
  · intro name failover working' hmem
    rcases (mem_round h.names horder).mp hmem with ⟨working, hprobed, rfl⟩ | hskipped
    · have hlookup : (name, Entry.pool failover working) ∈ lookup :=
        List.takeWhile_subset _ hprobed
      exact (h.working name failover working hlookup).recordAll fun ip hip =>
        (h.mem_ipsOf horder hprobed ip).mp hip
    · exact h.working name failover working' (List.dropWhile_subset _ hskipped)

theorem Reachable.wellFormed (h : Reachable lookup) : WellFormed lookup := by
  induction h with
  | start hnames hnone =>
      refine ⟨hnames, fun name failover working hmem => ?_⟩
      rw [hnone name failover working hmem]
      exact ⟨List.nodup_nil, by simp⟩
  | round _ horder ih => exact ih.round horder

/-- The flags of a pool that was probed are the outcomes of its probes. -/
theorem agrees_of_probed (h : WellFormed lookup)
    (horder : order.Perm (failover_heartbeat lookup).2) {name : String}
    {failover : List (String × String)} {working : Option Flags}
    (hprobed : (name, .pool failover working) ∈ probed lookup) :
    Agrees (up name) failover
      (some ((working.getD []).recordAll (up name) (ipsOf name order))) := by
  have hlookup : (name, Entry.pool failover working) ∈ lookup := List.takeWhile_subset _ hprobed
  have hips := h.mem_ipsOf horder hprobed
  intro ip
  rw [Option.getD_some, Flags.lookup_recordAll]
  by_cases hip : ip ∈ failover.map Prod.fst
  · rw [if_pos ((hips ip).mpr hip)]
    simp [hip]
  · have hnone : (working.getD []).lookup ip = none := by
      rw [List.lookup_eq_none_iff]
      intro f hf
      have hkey := (h.working name failover working hlookup).subset f.1
        (List.mem_map_of_mem (f := Prod.fst) hf)
      rw [bne_iff_ne]
      rintro rfl
      exact hip hkey
    rw [if_neg fun hmem => hip ((hips ip).mp hmem), hnone]
    simp [hip]

/-- The address that is picked is one of those whose flag is set. -/
theorem answersOne_of_agrees {up : String → Bool} {failover : List (String × String)}
    {working : Option Flags} (hkeys : ((working.getD []).map Prod.fst).Nodup)
    (h : Agrees up failover working) : AnswersOne up failover working := by
  intro random hnonneg hlt
  have hmem (ip : String) := (Flags.mem_trueworking (k := ip) hkeys).trans (h ip)
  rw [failover_address]
  generalize ((working.getD []).filter Prod.snd).map Prod.fst = trueworking at hmem
  by_cases hlen : trueworking.length = 0
  · rw [if_pos hlen]
    intro ip hip
    by_contra hup
    have hworking := (hmem ip).mpr ⟨hip, by simpa using hup⟩
    rw [List.length_eq_zero_iff.mp hlen] at hworking
    cases hworking
  · -- a random number below one gives an index of the list
    have hpos : (0 : ℚ) < trueworking.length := by exact_mod_cast Nat.pos_of_ne_zero hlen
    have hfloor : ⌊random * trueworking.length⌋ < trueworking.length := by
      rw [Int.floor_lt]
      push_cast
      nlinarith
    have hindex : ⌊random * trueworking.length⌋.toNat < trueworking.length := by omega
    rw [if_neg hlen, List.getElem?_eq_getElem hindex]
    exact (hmem _).mp (List.getElem_mem hindex)

end Coverage

/-- A round covers every pool exactly when the flags of the pools behind the first
address agree with the probes that are not made. -/
theorem round_covers_iff {up : String → String → Bool} {lookup : Lookup} {order : List Probe}
    (h : Reachable lookup) (horder : order.Perm (failover_heartbeat lookup).2) :
    Covered up (round up lookup order) ↔ SkippedAgree up lookup := by
  have wf := h.wellFormed
  have wf' : WellFormed (round up lookup order) := wf.round horder
  constructor
  · intro hcovered name failover working hskipped
    exact (hcovered name failover working ((mem_round wf.names horder).mpr (.inr hskipped))).1
  · intro hskip name failover working hmem
    have hagrees : Agrees (up name) failover working := by
      rcases (mem_round wf.names horder).mp hmem with ⟨working, hprobed, rfl⟩ | hskipped
      · exact agrees_of_probed wf horder hprobed
      · exact hskip name failover working hskipped
    exact ⟨hagrees, answersOne_of_agrees (wf'.working name failover working hmem).nodup hagrees⟩

section Sample

def apiPool : Entry :=
  .pool [("192.168.2.30", ":1230/ping"), ("192.168.2.31", ":1230/ping")] none

/-- The table of the server, up to further addresses. -/
def shipped : Lookup := [("api.saeu", apiPool), ("cam.saeu", .address "192.168.2.60")]

theorem reachable_shipped : Reachable shipped := by
  refine .start (by decide) ?_
  intro name failover working hmem
  simp only [shipped, apiPool, List.mem_cons, Prod.mk.injEq, reduceCtorEq, and_false,
    List.not_mem_nil, or_false, Entry.pool.injEq] at hmem
  exact hmem.2.2

/-- A pool behind an address is not probed. -/
theorem address_hides_pool : ¬ ∀ (up : String → String → Bool) (lookup : Lookup)
    (order : List Probe), Reachable lookup → order.Perm (failover_heartbeat lookup).2 →
      Covered up (round up lookup order) := by
  intro claim
  have reachable : Reachable shipped.reverse := by
    refine .start (by decide) ?_
    intro name failover working hmem
    simp only [shipped, apiPool, List.reverse_cons, List.reverse_nil, List.nil_append,
      List.cons_append, List.mem_cons, Prod.mk.injEq, reduceCtorEq, and_false, List.not_mem_nil,
      or_false, false_or, Entry.pool.injEq] at hmem
    exact hmem.2.2
  have covered := claim (fun _ _ => true) shipped.reverse [] reachable (.refl [])
  have agrees := (covered "api.saeu"
    [("192.168.2.30", ":1230/ping"), ("192.168.2.31", ":1230/ping")] none (by decide)).1
      "192.168.2.30"
  exact absurd (agrees.mpr ⟨by decide, rfl⟩) (by decide)

/-- The pool of the table is covered, in whatever order its probes complete. -/
theorem round_covers_shipped :
    Reachable shipped ∧ (failover_heartbeat shipped).2.reverse.Perm (failover_heartbeat shipped).2 ∧
      ∀ up, Covered up (round up shipped (failover_heartbeat shipped).2.reverse) := by
  have hperm := List.reverse_perm (failover_heartbeat shipped).2
  refine ⟨reachable_shipped, hperm, fun up => (round_covers_iff reachable_shipped hperm).mpr ?_⟩
  intro name failover working hmem
  have hskipped : skipped shipped = [("cam.saeu", .address "192.168.2.60")] := by decide
  rw [hskipped] at hmem
  simp at hmem

end Sample

end SchuleAlsStaat.Dns
