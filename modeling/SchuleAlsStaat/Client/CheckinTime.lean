import Mathlib.Data.List.Sort
import Mathlib.Algebra.Order.Ring.Archimedean
import SchuleAlsStaat.Actions.Act
import SchuleAlsStaat.Lib.Switch

/-!
# Attendance

`calc_checkin_time` of the clients.  It sorts the events of a student, looks backward
for the state at the beginning and forward for the intervals in which the student was
inside, and adds up the intervals.  `attendance_measured` says that the sum is the
measure of the times at which the latest event is a checkin.
-/

namespace SchuleAlsStaat

open Js (Exn Number except_ok_bind)

/-- `Math.round`. -/
def Js.Number.round : Number → Number
  | .fin a => .fin ⌊a + 1 / 2⌋
  | .nan => .nan

namespace CheckinTime

open Switch

/-! ## The function -/

/-- An element of `checks`, with the time in seconds since `begin`. -/
structure Check where
  type : String
  time : ℚ

/-- An element of `intervals`. -/
structure Interval where
  checkin : ℚ
  /-- `none` is undefined. -/
  checkout : Option ℚ

/-- The variables of the loops. -/
structure Scan where
  /-- An array with holes. -/
  intervals : List (Option Interval)
  is_checkedin : Bool
  current_interval : ℕ

def Check.relative (begin : ℚ) (a : Appear) : Check := ⟨a.type, (a.time - begin) / 1000⟩

/-- Later appearances to the higher indices. -/
def sortChecks (checks : List Check) : List Check := checks.insertionSort fun a b => a.time ≤ b.time

/-- `intervals[i] = v`. -/
def assign (intervals : List (Option Interval)) (i : ℕ) (v : Interval) : List (Option Interval) :=
  (intervals ++ List.replicate (i + 1 - intervals.length) none).set i (some v)

/-- `intervals[i].checkout = time`. -/
def setCheckout (intervals : List (Option Interval)) (i : ℕ) (time : ℚ) :
    Except Exn (List (Option Interval)) :=
  match intervals[i]? with
  | some (some v) => .ok (intervals.set i (some { v with checkout := some time }))
  | _ => .error .typeError

/-- The loop from index `i - 1` down to the last check before `begin`. -/
def lastBefore (checks : List Check) : ℕ → Option (ℕ × Check)
  | 0 => none
  | i + 1 =>
      match checks[i]? with
      | some c => if c.time < 0 then some (i, c) else lastBefore checks i
      | none => lastBefore checks i

/-- The index `last_check_before_begin + 1` and the variables after this loop. -/
def atBegin (checks : List Check) : ℕ × Scan :=
  match lastBefore checks checks.length with
  | none => (0, ⟨[], false, 0⟩)
  | some (i, c) => (i + 1,
      if c.type = "checkin" then ⟨assign [] 0 ⟨0, none⟩, true, 0⟩ else ⟨[], false, 0⟩)

/-- The two conditions in the loop over the checks after `begin`. -/
def onCheck (c : Check) (s : Scan) : Except Exn Scan := do
  let s := if c.type = "checkin" && !s.is_checkedin then { s with
      intervals := assign s.intervals s.current_interval ⟨c.time, none⟩
      is_checkedin := true } else s
  if c.type = "checkout" && s.is_checkedin then
    return {
      intervals := ← setCheckout s.intervals s.current_interval c.time
      is_checkedin := false
      current_interval := s.current_interval + 1 }
  else return s

def scan (endtime_relative : ℚ) : List Check → Scan → Except Exn Scan
  | [], s => .ok s
  | c :: checks, s =>
      if endtime_relative < c.time then .ok s
      else do scan endtime_relative checks (← onCheck c s)

/-- `intervals[i].checkout - intervals[i].checkin`. -/
def Interval.length (v : Interval) : Number :=
  (match v.checkout with
    | some time => .fin time
    | none => .nan) - .fin v.checkin

/-- The sum over all intervals. -/
def timeInside (acc : Number) : List (Option Interval) → Except Exn Number
  | [] => .ok acc
  | some v :: intervals => timeInside (acc + v.length) intervals
  | none :: _ => .error .typeError

structure Spec where
  time : Number
  present_at_end : Bool
deriving DecidableEq

/-- The "force-checkout" when the range ends. -/
def forceCheckout (endtime_relative : ℚ) (s : Scan) : Except Exn (List (Option Interval)) :=
  if s.is_checkedin then setCheckout s.intervals s.current_interval endtime_relative
  else .ok s.intervals

/-- `calc_checkin_time(st, begin, end)`. -/
def calc_checkin_time (st : Student) (begin end_ : ℚ) : Except Exn Spec := do
  let checks := sortChecks (st.appear.map (.relative begin))
  let endtime_relative := (end_ - begin) / 1000
  let s ← scan endtime_relative (checks.drop (atBegin checks).1) (atBegin checks).2
  let time_inside ← timeInside (.fin 0) (← forceCheckout endtime_relative s)
  return ⟨time_inside.round, s.is_checkedin⟩

/-! ## Intervals -/

/-- The variables with some finished intervals and the beginning of an open one. -/
def Scan.of (done : List (ℚ × ℚ)) (cur : Option ℚ) : Scan where
  intervals := done.map (fun p => some ⟨p.1, some p.2⟩) ++
    (cur.map fun checkin => some ⟨checkin, none⟩).toList
  is_checkedin := cur.isSome
  current_interval := done.length

/-- The length of all intervals, the open one up to `time`. -/
def total (done : List (ℚ × ℚ)) (cur : Option ℚ) (time : ℚ) : ℚ :=
  (done.map fun p => p.2 - p.1).sum + match cur with
    | some checkin => time - checkin
    | none => 0

/-- A check as an event of a switch. -/
def Check.event (c : Check) : ℚ × Bool := (c.time, c.type = "checkin")

section Scan

variable {done : List (ℚ × ℚ)} {cur : Option ℚ}

@[simp] theorem Scan.of_is_checkedin : (Scan.of done cur).is_checkedin = cur.isSome := rfl

@[simp] theorem Scan.of_current_interval : (Scan.of done cur).current_interval = done.length := rfl

theorem assign_of (time : ℚ) :
    assign (Scan.of done none).intervals done.length ⟨time, none⟩ =
      (Scan.of done (some time)).intervals := by
  simp [assign, Scan.of]

theorem setCheckout_of (checkin time : ℚ) :
    setCheckout (Scan.of done (some checkin)).intervals done.length time =
      .ok (Scan.of (done ++ [(checkin, time)]) none).intervals := by
  simp [setCheckout, Scan.of]

theorem total_concat (checkin time : ℚ) :
    total (done ++ [(checkin, time)]) none time = total done (some checkin) time := by
  simp [total]

/-- The open interval grows. -/
theorem total_some (checkin x y : ℚ) :
    total done (some checkin) y = total done (some checkin) x + (y - x) := by
  rw [total, total]
  ring

theorem onCheck_checkin {c : Check} (h : c.type = "checkin") (s : Scan) :
    onCheck c s = .ok (if s.is_checkedin then s else { s with
      intervals := assign s.intervals s.current_interval ⟨c.time, none⟩
      is_checkedin := true }) := by
  cases hs : s.is_checkedin <;> simp [onCheck, h, hs] <;> rfl

theorem onCheck_checkout {c : Check} (h : c.type = "checkout") (s : Scan) :
    onCheck c s = if s.is_checkedin
      then (setCheckout s.intervals s.current_interval c.time).map fun intervals =>
        ⟨intervals, false, s.current_interval + 1⟩
      else .ok s := by
  cases hs : s.is_checkedin <;> simp [onCheck, h, hs] <;> rfl

/-- A check opens or finishes an interval, or it is redundant. -/
theorem onCheck_of {c : Check} (htype : c.type = "checkin" ∨ c.type = "checkout") (x : ℚ) :
    ∃ done' cur', onCheck c (Scan.of done cur) = .ok (Scan.of done' cur') ∧
      cur'.isSome = c.event.2 ∧
        total done' cur' c.time = total done cur x + if cur.isSome then c.time - x else 0 := by
  rcases htype with htype | htype
  · rw [onCheck_checkin htype]
    have hevent : c.event.2 = true := by simp [Check.event, htype]
    cases cur with
    | none =>
        refine ⟨done, some c.time, ?_, hevent.symm, by simp [total]⟩
        rw [if_neg (by simp), Scan.of_current_interval, assign_of]
        rfl
    | some checkin => exact ⟨done, some checkin, rfl, hevent.symm, total_some checkin x c.time⟩
  · rw [onCheck_checkout htype]
    have hevent : c.event.2 = false := by simp [Check.event, htype]
    cases cur with
    | none => exact ⟨done, none, rfl, hevent.symm, by simp [total]⟩
    | some checkin =>
        refine ⟨done ++ [(checkin, c.time)], none, ?_, hevent.symm, ?_⟩
        · rw [if_pos (by simp), Scan.of_current_interval, setCheckout_of]
          simp [Except.map, Scan.of]
        · rw [total_concat]
          exact total_some checkin x c.time

/-- The loop adds up how long the student is inside, and knows the state at the end. -/
theorem scan_of {checks : List Check}
    (htypes : ∀ c ∈ checks, c.type = "checkin" ∨ c.type = "checkout") (done : List (ℚ × ℚ))
    (cur : Option ℚ) (x y : ℚ) :
    ∃ done' cur', scan y checks (Scan.of done cur) = .ok (Scan.of done' cur') ∧
      cur'.isSome = stateAt cur.isSome (checks.map Check.event) y ∧
        total done' cur' y = total done cur x +
          duration cur.isSome x y (checks.map Check.event) := by
  induction checks generalizing done cur x with
  | nil =>
      refine ⟨done, cur, rfl, rfl, ?_⟩
      cases cur with
      | none => simp [total, duration]
      | some checkin => exact total_some checkin x y
  | cons c checks ih =>
      obtain ⟨htype, htypes⟩ := List.forall_mem_cons.mp htypes
      simp only [scan, List.map_cons, Check.event, stateAt, duration]
      by_cases hend : y < c.time
      · rw [if_pos hend, if_pos hend, if_neg hend.not_ge]
        refine ⟨done, cur, rfl, rfl, ?_⟩
        cases cur with
        | none => simp [total]
        | some checkin => exact total_some checkin x y
      · rw [if_neg hend, if_neg hend, if_pos (not_lt.mp hend)]
        obtain ⟨done', cur', hcheck, hstate, htotal⟩ := onCheck_of htype x
        obtain ⟨done'', cur'', hscan, hstate', htotal'⟩ := ih htypes done' cur' c.time
        refine ⟨done'', cur'', ?_, ?_, ?_⟩
        · rw [hcheck, except_ok_bind, hscan]
        · rw [hstate', hstate]
          rfl
        · rw [htotal', htotal, hstate, add_assoc]
          rfl

/-- The sum of finished intervals. -/
theorem timeInside_of (done : List (ℚ × ℚ)) (acc time : ℚ) :
    timeInside (.fin acc) (Scan.of done none).intervals = .ok (.fin (acc + total done none time)) := by
  induction done generalizing acc with
  | nil => simp [Scan.of, timeInside, total]
  | cons p done ih =>
      have hrest := ih (acc + (p.2 - p.1))
      simp only [Scan.of, Option.map_none, Option.toList_none, List.append_nil] at hrest
      simp [Scan.of, timeInside, Interval.length, hrest, total, add_assoc]

end Scan

/-! ## The beginning -/

section Begin

variable {checks : List Check}

/-- The search finds the last one of the first `n` checks that is before `begin`, or
none of them is. -/
theorem lastBefore_cases {n : ℕ} (hn : n ≤ checks.length) :
    (lastBefore checks n = none ∧ ∀ c ∈ checks.take n, 0 ≤ c.time) ∨
      ∃ past c rest, lastBefore checks n = some (past.length, c) ∧ c.time < 0 ∧
        checks.take n = past ++ c :: rest ∧ ∀ c' ∈ rest, 0 ≤ c'.time := by
  induction n with
  | zero => exact .inl ⟨rfl, fun c hc => absurd hc (by simp)⟩
  | succ n ih =>
      have hget : checks[n]? = some checks[n] := List.getElem?_eq_getElem hn
      have htake : checks.take (n + 1) = checks.take n ++ [checks[n]] :=
        List.take_succ_eq_append_getElem hn
      rw [lastBefore, hget, htake]
      dsimp only
      by_cases hbefore : checks[n].time < 0
      · rw [if_pos hbefore]
        have hlength : (checks.take n).length = n :=
          List.length_take_of_le (Nat.le_of_succ_le hn)
        exact .inr ⟨checks.take n, checks[n], [], by rw [hlength], hbefore, rfl,
          fun c hc => absurd hc List.not_mem_nil⟩
      · rw [if_neg hbefore]
        have hafter : ∀ c ∈ [checks[n]], 0 ≤ c.time := by simpa using hbefore
        rcases ih (Nat.le_of_succ_le hn) with ⟨hnone, hall⟩ |
          ⟨past, c, rest, hsome, hc, hrest, hall⟩
        · exact .inl ⟨hnone, List.forall_mem_append.mpr ⟨hall, hafter⟩⟩
        · refine .inr ⟨past, c, rest ++ [checks[n]], hsome, hc, ?_,
            List.forall_mem_append.mpr ⟨hall, hafter⟩⟩
          rw [hrest, List.append_assoc, List.cons_append]

/-- At `begin` the state is that of the last check before it, and the loop goes on with
the checks from `begin` on. -/
theorem atBegin_of (hsorted : checks.Pairwise fun c c' => c.time < c'.time) :
    ∃ past rest cur, checks = past ++ rest ∧ checks.drop (atBegin checks).1 = rest ∧
      (atBegin checks).2 = Scan.of [] cur ∧ total [] cur 0 = 0 ∧
      (∀ c ∈ past, c.time < 0) ∧ (∀ c ∈ rest, 0 ≤ c.time) ∧
      cur.isSome = stateAt false (past.map Check.event) 0 := by
  rcases lastBefore_cases (le_refl checks.length) with ⟨hnone, hall⟩ |
    ⟨past, c, rest, hsome, hc, hrest, hall⟩
  · rw [List.take_length] at hall
    refine ⟨[], checks, none, rfl, ?_, ?_, by simp [total], by simp, hall, rfl⟩
    · rw [atBegin, hnone]
      rfl
    · rw [atBegin, hnone]
      rfl
  · rw [List.take_length] at hrest
    have hpast : ∀ c' ∈ past, c'.time < 0 := by
      rw [hrest] at hsorted
      exact fun c' hc' =>
        ((List.pairwise_append.mp hsorted).2.2 c' hc' c (List.mem_cons_self ..)).trans hc
    refine ⟨past ++ [c], rest, if c.type = "checkin" then some 0 else none, ?_, ?_, ?_, ?_, ?_,
      hall, ?_⟩
    · rw [hrest, List.append_assoc, List.singleton_append]
    · rw [atBegin, hsome, hrest]
      simp
    · rw [atBegin, hsome]
      dsimp only
      split <;> rfl
    · split <;> simp [total]
    · exact List.forall_mem_append.mpr ⟨hpast, by simpa using hc⟩
    · rw [List.map_append, List.map_singleton, stateAt_concat _ hc.le]
      · rw [Check.event]
        split
        next htype => simp [htype]
        next htype => simp [htype]
      · rw [List.forall_mem_map]
        exact fun c' hc' => (hpast c' hc').le

end Begin

/-- The sum of all intervals after the open one is finished. -/
theorem timeInside_forceCheckout (done : List (ℚ × ℚ)) (cur : Option ℚ) (y : ℚ) :
    (do timeInside (.fin 0) (← forceCheckout y (Scan.of done cur))) = .ok (.fin (total done cur y)) := by
  cases cur with
  | none =>
      have hsum := timeInside_of done 0 y
      rw [zero_add] at hsum
      rw [forceCheckout, if_neg (by simp), except_ok_bind, hsum]
  | some checkin =>
      have hsum := timeInside_of (done ++ [(checkin, y)]) 0 y
      rw [zero_add, total_concat] at hsum
      rw [forceCheckout, if_pos (by simp), Scan.of_current_interval, setCheckout_of,
        except_ok_bind, hsum]

/-! ## The whole function -/

section Whole

variable {st : Student} {begin : ℚ}

theorem mem_sortChecks {c : Check} :
    c ∈ sortChecks (st.appear.map (.relative begin)) ↔ ∃ a ∈ st.appear, .relative begin a = c := by
  rw [sortChecks, List.mem_insertionSort, List.mem_map]

theorem relative_time_inj {a a' : Appear}
    (h : (Check.relative begin a).time = (Check.relative begin a').time) : a.time = a'.time := by
  rw [Check.relative, Check.relative, div_left_inj' (by norm_num), sub_left_inj] at h
  exact_mod_cast h

/-- Checks at different times are in strict order. -/
theorem sortChecks_pairwise (hdistinct : (st.appear.map Appear.time).Nodup) (begin : ℚ) :
    (sortChecks (st.appear.map (.relative begin))).Pairwise fun c c' => c.time < c'.time := by
  have hne : (st.appear.map (Check.relative begin)).Pairwise
      fun c c' : Check => c.time ≠ c'.time := by
    rw [List.pairwise_map]
    exact (List.pairwise_map.mp hdistinct).imp fun hne heq => hne (relative_time_inj heq)
  have hle := List.pairwise_insertionSort (fun a b : Check => a.time ≤ b.time)
    (st.appear.map (Check.relative begin))
  have hperm := List.perm_insertionSort (fun a b : Check => a.time ≤ b.time)
    (st.appear.map (Check.relative begin))
  have hne' := (hperm.pairwise_iff fun h => h.symm).mpr hne
  exact (hle.and hne').imp fun ⟨hle, hne⟩ => lt_of_le_of_ne hle hne

/-- What the function computes: the duration of being inside, and the state at the end. -/
theorem calc_checkin_time_eq (hdistinct : (st.appear.map Appear.time).Nodup)
    (htypes : ∀ a ∈ st.appear, a.type = "checkin" ∨ a.type = "checkout") (begin end_ : ℚ) :
    ∃ past rest, (sortChecks (st.appear.map (.relative begin))).map Check.event = past ++ rest ∧
      (∀ e ∈ past, e.1 < 0) ∧ (∀ e ∈ rest, 0 ≤ e.1) ∧
      calc_checkin_time st begin end_ = .ok
        ⟨.fin ⌊duration (stateAt false past 0) 0 ((end_ - begin) / 1000) rest + 1 / 2⌋,
          stateAt (stateAt false past 0) rest ((end_ - begin) / 1000)⟩ := by
  obtain ⟨past, rest, cur, hchecks, hdrop, hbegin, htotal, hpast, hrest, hstate⟩ :=
    atBegin_of (sortChecks_pairwise hdistinct begin)
  have hresttypes : ∀ c ∈ rest, c.type = "checkin" ∨ c.type = "checkout" := by
    intro c hc
    obtain ⟨a, ha, rfl⟩ := mem_sortChecks.mp (hchecks ▸ List.mem_append_right past hc)
    exact htypes a ha
  obtain ⟨done, cur', hscan, hinside, hsum⟩ :=
    scan_of hresttypes [] cur 0 ((end_ - begin) / 1000)
  rw [htotal, zero_add] at hsum
  refine ⟨past.map Check.event, rest.map Check.event, ?_, ?_, ?_, ?_⟩
  · rw [hchecks, List.map_append]
  · rwa [List.forall_mem_map]
  · rwa [List.forall_mem_map]
  · have htime := timeInside_forceCheckout done cur' ((end_ - begin) / 1000)
    rw [calc_checkin_time, hdrop, hbegin, hscan, except_ok_bind, ← hstate, ← hinside, ← hsum]
    cases hforce : forceCheckout ((end_ - begin) / 1000) (Scan.of done cur') with
    | error e =>
        rw [hforce] at htime
        cases htime
    | ok intervals =>
        rw [hforce, except_ok_bind] at htime
        rw [except_ok_bind, htime]
        rfl

end Whole

/-! ## The measure -/

section Measure

open MeasureTheory

/-- The student is inside at `t`: the latest event up to `t` is a checkin. -/
def Inside (st : Student) (t : ℝ) : Prop :=
  ∃ a ∈ st.appear, (a.time : ℝ) ≤ t ∧ (∀ a' ∈ st.appear, (a'.time : ℝ) ≤ t → a'.time ≤ a.time) ∧
    a.type = "checkin"

/-- The time of a check in milliseconds. -/
noncomputable def absolute (begin : ℚ) (time : ℚ) : ℝ := ((time * 1000 + begin : ℚ) : ℝ)

/-- Seconds in milliseconds. -/
noncomputable def milliseconds : ℚ →+ ℝ := (Rat.castHom ℝ).toAddMonoidHom.comp (AddMonoidHom.mulRight 1000)

variable {st : Student} {begin end_ : ℚ}

theorem absolute_le (x y : ℚ) : absolute begin x ≤ absolute begin y ↔ x ≤ y := by
  rw [absolute, absolute, Rat.cast_le, add_le_add_iff_right, mul_le_mul_iff_left₀ (by norm_num)]

theorem absolute_lt (x y : ℚ) : absolute begin x < absolute begin y ↔ x < y := by
  rw [← not_le, absolute_le, not_le]

theorem absolute_sub (begin x y : ℚ) : absolute begin x - absolute begin y = milliseconds (x - y) := by
  simp only [absolute, milliseconds, AddMonoidHom.comp_apply, AddMonoidHom.mulRight_apply,
    RingHom.toAddMonoidHom_eq_coe, AddMonoidHom.coe_coe, eq_ratCast]
  push_cast
  ring

theorem absolute_zero (begin : ℚ) : absolute begin 0 = begin := by simp [absolute]

theorem absolute_end : absolute begin ((end_ - begin) / 1000) = end_ := by
  rw [absolute]
  congr 1
  ring

theorem absolute_relative (a : Appear) : absolute begin (Check.relative begin a).time = a.time := by
  rw [absolute, Check.relative]
  have h : ((a.time : ℚ) - begin) / 1000 * 1000 + begin = a.time := by ring
  rw [h, Rat.cast_intCast]

/-- The switch over the checks, in milliseconds. -/
noncomputable def switch (st : Student) (begin : ℚ) : List (ℝ × Bool) :=
  ((sortChecks (st.appear.map (.relative begin))).map Check.event).map fun e =>
    (absolute begin e.1, e.2)

theorem mem_switch {e : ℝ × Bool} :
    e ∈ switch st begin ↔ ∃ a ∈ st.appear, ((a.time : ℝ), decide (a.type = "checkin")) = e := by
  rw [switch, List.map_map, List.mem_map]
  constructor
  · rintro ⟨c, hc, rfl⟩
    obtain ⟨a, ha, rfl⟩ := mem_sortChecks.mp hc
    exact ⟨a, ha, Prod.ext (absolute_relative a).symm rfl⟩
  · rintro ⟨a, ha, rfl⟩
    exact ⟨.relative begin a, mem_sortChecks.mpr ⟨a, ha, rfl⟩, Prod.ext (absolute_relative a) rfl⟩

theorem ordered_switch (hdistinct : (st.appear.map Appear.time).Nodup) (begin : ℚ) :
    Ordered (switch st begin) := by
  rw [Ordered, switch, List.map_map, List.pairwise_map]
  exact (sortChecks_pairwise hdistinct begin).imp fun h => (absolute_lt _ _).mpr h

/-- The switch is on while the student is inside. -/
theorem inside_iff (hdistinct : (st.appear.map Appear.time).Nodup) (t : ℝ) :
    Inside st t ↔ stateAt false (switch st begin) t = true := by
  rw [stateAt_iff (ordered_switch hdistinct begin)]
  constructor
  · rintro ⟨a, ha, hle, hlast, htype⟩
    refine .inl ⟨_, ⟨mem_switch.mpr ⟨a, ha, rfl⟩, hle, fun e he hle' => ?_⟩, decide_eq_true htype⟩
    obtain ⟨a', ha', rfl⟩ := mem_switch.mp he
    exact Int.cast_le.mpr (hlast a' ha' hle')
  · rintro (⟨e, ⟨hmem, hle, hlast⟩, hon⟩ | ⟨-, hfalse⟩)
    · obtain ⟨a, ha, rfl⟩ := mem_switch.mp hmem
      refine ⟨a, ha, hle, fun a' ha' hle' => ?_, of_decide_eq_true hon⟩
      exact Int.cast_le.mp (hlast _ (mem_switch.mpr ⟨a', ha', rfl⟩) hle')
    · cases hfalse

/-- From `begin` on, the checks before it only matter through the state that they leave. -/
theorem stateAt_switch {past rest : List (ℚ × Bool)}
    (hevents : (sortChecks (st.appear.map (.relative begin))).map Check.event = past ++ rest)
    (hpast : ∀ e ∈ past, e.1 < 0) {t : ℝ} (ht : begin ≤ t) :
    stateAt false (switch st begin) t =
      stateAt (stateAt false past 0) (rest.map fun e => (absolute begin e.1, e.2)) t := by
  have hbefore : ∀ e ∈ past.map fun e => (absolute begin e.1, e.2), e.1 ≤ (begin : ℝ) := by
    rw [List.forall_mem_map]
    intro e he
    rw [← absolute_zero begin, absolute_le]
    exact (hpast e he).le
  rw [switch, hevents, List.map_append, stateAt_append fun e he => (hbefore e he).trans ht,
    stateAt_eq_of_past (fun e he => (hbefore e he).trans ht) hbefore,
    ← absolute_zero begin, stateAt_map absolute_le]

/-- The time is the number of seconds during which the student is inside, rounded, and
`present_at_end` says whether the student is inside at the end. -/
theorem attendance_measured (hdistinct : (st.appear.map Appear.time).Nodup)
    (htypes : ∀ a ∈ st.appear, a.type = "checkin" ∨ a.type = "checkout") (h : begin ≤ end_) :
    ∃ r, calc_checkin_time st begin end_ = .ok r ∧
      (r.present_at_end = true ↔ Inside st end_) ∧
      r.time = .fin ⌊volume.real { t : ℝ | begin ≤ t ∧ t ≤ end_ ∧ Inside st t } / 1000 + 1 / 2⌋ := by
  obtain ⟨past, rest, hevents, hpast, hrest, hcalc⟩ :=
    calc_checkin_time_eq hdistinct htypes begin end_
  have hinside : ∀ t : ℝ, begin ≤ t → (Inside st t ↔
      stateAt (stateAt false past 0) (rest.map fun e => (absolute begin e.1, e.2)) t = true) := by
    intro t ht
    rw [inside_iff hdistinct, stateAt_switch hevents hpast ht]
  have hle : (begin : ℝ) ≤ end_ := by exact_mod_cast h
  refine ⟨_, hcalc, ?_, ?_⟩
  · rw [hinside _ hle, ← absolute_end, stateAt_map absolute_le]
  · have hset : { t : ℝ | begin ≤ t ∧ t ≤ end_ ∧ Inside st t } =
        On (stateAt false past 0) begin end_ (rest.map fun e => (absolute begin e.1, e.2)) := by
      ext t
      exact and_congr_right fun ht => and_congr_right fun _ => hinside t ht
    have hordered : Ordered (rest.map fun e => (absolute begin e.1, e.2)) := by
      have hall := ordered_switch hdistinct begin
      rw [switch, hevents, List.map_append] at hall
      exact (List.pairwise_append.mp hall).2.1
    have hafter : ∀ e ∈ rest.map fun e => (absolute begin e.1, e.2), (begin : ℝ) ≤ e.1 := by
      rw [List.forall_mem_map]
      intro e he
      rw [← absolute_zero begin, absolute_le]
      exact hrest e he
    have hduration := duration_map absolute_lt (absolute_sub begin)
      (stateAt false past 0) 0 ((end_ - begin) / 1000) rest
    rw [absolute_zero, absolute_end] at hduration
    have hseconds : volume.real { t : ℝ | begin ≤ t ∧ t ≤ end_ ∧ Inside st t } / 1000 + 1 / 2 =
        ((duration (stateAt false past 0) 0 ((end_ - begin) / 1000) rest + 1 / 2 : ℚ) : ℝ) := by
      rw [hset, volume_on hordered hafter hle, hduration]
      simp [milliseconds]
    rw [hseconds, Rat.floor_cast]

/-- A student who comes before the beginning and leaves half a second before the end. -/
def leaves : Student := { someStudent 1 with appear := [⟨"checkout", 3500⟩, ⟨"checkin", 1000⟩] }

theorem attendance_measured_leaves : ¬ Inside leaves (4000 : ℚ) ∧
    ⌊volume.real { t : ℝ | (2000 : ℚ) ≤ t ∧ t ≤ (4000 : ℚ) ∧ Inside leaves t } / 1000 + 1 / 2⌋ = 2 := by
  obtain ⟨r, hcalc, hend, htime⟩ := @attendance_measured leaves 2000 4000 (by decide)
    (by decide) (by norm_num)
  have hrun : (calc_checkin_time leaves 2000 4000).toOption = some ⟨.fin 2, false⟩ := by
    decide +kernel
  rw [hcalc] at hrun
  cases hrun
  refine ⟨fun h => ?_, ?_⟩
  · cases hend.mpr h
  · have hfloor := (Number.fin.inj htime).symm
    exact_mod_cast hfloor

end Measure

end CheckinTime

end SchuleAlsStaat
