import Mathlib.Data.List.Basic
import Mathlib.Tactic.SplitIfs

/-!
# Case mapping

A string is a sequence of UTF-16 code units.  In upper or lower case a single code
unit may become several.  The tables depend on the Unicode version of the engine, and
`CaseMapping` holds what all versions agree on.
-/

namespace SchuleAlsStaat.Js

/-- The code units of a string. -/
def units (s : String) : List UInt16 := s.toList.map fun c => c.val.toUInt16

/-- The capital letters of Latin-1, whose small letters are 32 places after them. -/
def Latin1Capital (c : UInt16) : Prop :=
  0x41 ≤ c ∧ c ≤ 0x5a ∨ 0xc0 ≤ c ∧ c ≤ 0xde ∧ c ≠ 0xd7

instance (c : UInt16) : Decidable (Latin1Capital c) := by
  unfold Latin1Capital
  infer_instance

/-- The case mapping of single code units. -/
structure CaseMapping where
  toUpperCase : UInt16 → List UInt16
  toLowerCase : UInt16 → List UInt16
  upper_ne_nil (c : UInt16) : toUpperCase c ≠ []
  lower_ne_nil (c : UInt16) : toLowerCase c ≠ []
  upper_idem {c d : UInt16} : d ∈ toUpperCase c → toUpperCase d = [d]
  lower_idem {c d : UInt16} : d ∈ toLowerCase c → toLowerCase d = [d]
  /-- Only the first unit of an upper case form may become longer in lower case. -/
  lower_tail {c d : UInt16} : d ∈ (toUpperCase c).tail → ∃ e, toLowerCase d = [e]
  lower_capital {c : UInt16} : Latin1Capital c → toLowerCase c = [c + 0x20]
  upper_small {c : UInt16} : Latin1Capital c → toUpperCase (c + 0x20) = [c]
  upper_sharp_s : toUpperCase 0xdf = [0x53, 0x53]
  lower_sharp_s : toLowerCase 0xdf = [0xdf]
  /-- The characters before the letters of ASCII have no case. -/
  upper_sign {c : UInt16} : c < 0x41 → toUpperCase c = [c]
  lower_sign {c : UInt16} : c < 0x41 → toLowerCase c = [c]
  eq_of_mem_upper {c d : UInt16} : d < 0x41 → d ∈ toUpperCase c → c = d
  eq_of_mem_lower {c d : UInt16} : d < 0x41 → d ∈ toLowerCase c → c = d

namespace CaseMapping

variable (m : CaseMapping)

theorem upper_capital {c : UInt16} (h : Latin1Capital c) : m.toUpperCase c = [c] := by
  have hmem : c ∈ m.toUpperCase (c + 0x20) := by
    rw [m.upper_small h]
    exact List.mem_singleton_self c
  exact m.upper_idem hmem

theorem lower_small {c : UInt16} (h : Latin1Capital c) :
    m.toLowerCase (c + 0x20) = [c + 0x20] := by
  have hmem : c + 0x20 ∈ m.toLowerCase c := by
    rw [m.lower_capital h]
    exact List.mem_singleton_self _
  exact m.lower_idem hmem

/-! ## The characters of Latin-1 -/

/-- The upper case of Latin-1 characters.  Other characters are left alone. -/
def latin1Upper (c : UInt16) : List UInt16 :=
  if Latin1Capital (c - 0x20) then [c - 0x20]
  else if c = 0xdf then [0x53, 0x53]
  else if c = 0xb5 then [0x39c]
  else if c = 0xff then [0x178]
  else [c]

/-- The lower case of Latin-1 characters. -/
def latin1Lower (c : UInt16) : List UInt16 := if Latin1Capital c then [c + 0x20] else [c]

theorem latin1Upper_of_capital {c : UInt16} (h : Latin1Capital c) : latin1Upper c = [c] := by
  unfold latin1Upper Latin1Capital at *
  grind

theorem latin1Upper_idem {c d : UInt16} (h : d ∈ latin1Upper c) : latin1Upper d = [d] := by
  unfold latin1Upper at h
  split at h
  case isTrue hc =>
    obtain rfl := List.mem_singleton.mp h
    exact latin1Upper_of_capital hc
  case isFalse hc =>
    split_ifs at h with hs hm hy
    · obtain rfl : d = 0x53 := by simpa using h
      rfl
    · obtain rfl := List.mem_singleton.mp h
      rfl
    · obtain rfl := List.mem_singleton.mp h
      rfl
    · obtain rfl := List.mem_singleton.mp h
      simp only [latin1Upper, if_neg hc, if_neg hs, if_neg hm, if_neg hy]

theorem latin1Lower_idem {c d : UInt16} (h : d ∈ latin1Lower c) : latin1Lower d = [d] := by
  unfold latin1Lower Latin1Capital at *
  grind

def latin1 : CaseMapping where
  toUpperCase := latin1Upper
  toLowerCase := latin1Lower
  upper_ne_nil c := by unfold latin1Upper; grind
  lower_ne_nil c := by unfold latin1Lower; grind
  upper_idem h := latin1Upper_idem h
  lower_idem h := latin1Lower_idem h
  lower_tail h := by unfold latin1Upper latin1Lower at *; grind
  lower_capital h := by unfold latin1Lower; grind
  upper_small h := by unfold latin1Upper Latin1Capital at *; grind
  upper_sharp_s := rfl
  lower_sharp_s := rfl
  upper_sign h := by unfold latin1Upper Latin1Capital at *; grind
  lower_sign h := by unfold latin1Lower Latin1Capital at *; grind
  eq_of_mem_upper h := by unfold latin1Upper Latin1Capital at *; grind
  eq_of_mem_lower h := by unfold latin1Lower Latin1Capital at *; grind

end CaseMapping

end SchuleAlsStaat.Js
