import Mathlib.Order.Lattice
import SchuleAlsStaat.Js.CaseMapping

/-!
# Names in the registration form

`sanitize_namestring` runs two loops over the string that they rewrite.  The first one
puts every character in upper or lower case, the second one deletes the characters
that are not legal and then goes on behind the character that has moved up.
-/

namespace SchuleAlsStaat.Names

open Js (CaseMapping units)

variable (m : CaseMapping)

/-- A property of the members of a list is decided on the list. -/
instance decidableForallMemList (p : UInt16 → Prop) [DecidablePred p] (l : List UInt16) :
    Decidable (∀ c ∈ l, p c) :=
  List.decidableBAll p l

instance decidableForallMemOption (p : UInt16 → Prop) [DecidablePred p] (o : Option UInt16) :
    Decidable (∀ c ∈ o, p c) :=
  Option.decidableForallMem o

def setChar (name : List UInt16) (i : ℕ) (nc : List UInt16) : List UInt16 :=
  name.take i ++ nc ++ name.drop (i + 1)

def uppercase_after : List UInt16 := units "- '"

def legal_chars : List UInt16 := units "abcdefghijklmnopqrstuvwxyzäöüß-' "

def Legal (c : UInt16) : Prop := c ∈ legal_chars ∨ c ∈ legal_chars.flatMap m.toUpperCase

instance : DecidablePred (Legal m) := fun c => by
  unfold Legal
  infer_instance

/-- The first loop, on at most so many iterations. -/
def caseLoop : ℕ → List UInt16 → ℕ → Option (List UInt16)
  | 0, _, _ => none
  | fuel + 1, name, i =>
      match name[i]?, name[i + 1]? with
      | some a, some b =>
          if a ∈ uppercase_after then caseLoop fuel (setChar name (i + 1) (m.toUpperCase b)) (i + 1)
          else caseLoop fuel (setChar name (i + 1) (m.toLowerCase b)) (i + 1)
      | _, _ => some name

/-- The second loop. -/
def legalLoop : ℕ → List UInt16 → ℕ → Option (List UInt16)
  | 0, _, _ => none
  | fuel + 1, name, i =>
      match name[i]? with
      | some c => legalLoop fuel (if Legal m c then name else setChar name i []) (i + 1)
      | none => some name

def sanitize_namestring (fuel : ℕ) (name : List UInt16) : Option (List UInt16) :=
  match name[0]? with
  | none => some []
  | some _ => do
      let name ← caseLoop m fuel name 0
      let first ← name[0]?
      legalLoop m fuel (setChar name 0 (m.toUpperCase first)) 0

/-- The call returns a string, and every larger number of iterations gives the same. -/
def Returns (name r : List UInt16) : Prop :=
  ∃ n, ∀ fuel, n ≤ fuel → sanitize_namestring m fuel name = some r

/-! ## Clean names -/

/-- The letters of `legal_chars`. -/
def small : List UInt16 := legal_chars.filter (· ∉ uppercase_after)

def capitals : List UInt16 := units "ABCDEFGHIJKLMNOPQRSTUVWXYZÄÖÜ"

/-- Every letter is a capital where one is due and a small letter elsewhere.  A capital
is due after a separator, and at the beginning if `due` says so. -/
def Spelled : Bool → List UInt16 → Prop
  | _, [] => True
  | due, c :: cs =>
      (c ∈ small ∨ c ∈ capitals → if due then c ∈ capitals else c ∈ small) ∧
        Spelled (c ∈ uppercase_after) cs

/-- A name of letters and separators in which the first letter and those after a separator
are capitals, and no other ones. -/
structure Clean (name : List UInt16) : Prop where
  legal : ∀ c ∈ name, c ∈ small ∨ c ∈ capitals ∨ c ∈ uppercase_after
  spelled : Spelled true name

/-! ## The names that become clean -/

def cased (due : Bool) (c : UInt16) : List UInt16 :=
  if due then m.toUpperCase c else m.toLowerCase c

/-- A character in the case that its place asks for.  Where this is several characters,
only the first one may be a capital. -/
def written (due : Bool) (c : UInt16) : List UInt16 :=
  match cased m due c with
  | [] => []
  | d :: ds => d :: ds.flatMap m.toLowerCase

def writtenFrom : Bool → List UInt16 → List UInt16
  | _, [] => []
  | due, c :: cs => written m due c ++ writtenFrom (c ∈ uppercase_after) cs

/-- The name with every character in the case that its place asks for. -/
def spelling : List UInt16 → List UInt16
  | [] => []
  | c :: cs => m.toUpperCase c ++ writtenFrom m (c ∈ uppercase_after) cs

/-- No character that is not legal stands where a capital is due and directly before a small
letter. -/
def NoneLost : Bool → List UInt16 → Prop
  | _, [] => True
  | due, c :: cs =>
      (due = true → ¬ Legal m c → ∀ d ∈ cs.head?, d ∉ small) ∧
        NoneLost (c ∈ uppercase_after) cs

instance decidableNoneLost : (due : Bool) → (name : List UInt16) → Decidable (NoneLost m due name)
  | _, [] => .isTrue trivial
  | due, c :: cs =>
      have := decidableNoneLost (c ∈ uppercase_after) cs
      inferInstanceAs (Decidable ((due = true → ¬ Legal m c → ∀ d ∈ cs.head?, d ∉ small) ∧
        NoneLost m (c ∈ uppercase_after) cs))

/-- When a name becomes clean at once. -/
structure Cleanable (name : List UInt16) : Prop where
  /-- Of two neighbouring characters at least one is legal. -/
  apart : (spelling m name).IsChain fun c d => Legal m c ∨ Legal m d
  noneLost : NoneLost m true (spelling m name)
  /-- The upper case of the first character is at most one letter. -/
  single : ∀ c ∈ name.head?, ((m.toUpperCase c).filter (Legal m ·)).length ≤ 1

/-! ## The case of letters and separators -/

theorem sign_of_separator : ∀ c ∈ uppercase_after, c < 0x41 := by decide

theorem capital_of_small : ∀ c ∈ small,
    c = 0xdf ∨ Js.Latin1Capital (c - 0x20) ∧ c - 0x20 ∈ capitals ∧ c - 0x20 + 0x20 = c := by
  decide

theorem latin1Capital_of_capital : ∀ c ∈ capitals, Js.Latin1Capital c := by decide

theorem not_small_of_capital : ∀ c ∈ capitals, c ∉ small := by decide

theorem not_small_of_separator : ∀ c ∈ uppercase_after, c ∉ small := by decide

theorem not_capital_of_separator : ∀ c ∈ uppercase_after, c ∉ capitals := by decide

theorem upper_separator {c : UInt16} (h : c ∈ uppercase_after) : m.toUpperCase c = [c] :=
  m.upper_sign (sign_of_separator c h)

theorem lower_separator {c : UInt16} (h : c ∈ uppercase_after) : m.toLowerCase c = [c] :=
  m.lower_sign (sign_of_separator c h)

theorem upper_capital {c : UInt16} (h : c ∈ capitals) : m.toUpperCase c = [c] :=
  m.upper_capital (latin1Capital_of_capital c h)

theorem lower_small {c : UInt16} (h : c ∈ small) : m.toLowerCase c = [c] := by
  obtain rfl | ⟨hc, -, heq⟩ := capital_of_small c h
  · exact m.lower_sharp_s
  · rw [← heq]
    exact m.lower_small hc

theorem upper_small_of_ne {c : UInt16} (h : c ∈ small) (hne : c ≠ 0xdf) :
    ∃ d ∈ capitals, m.toUpperCase c = [d] := by
  obtain rfl | ⟨hc, hmem, heq⟩ := capital_of_small c h
  · exact absurd rfl hne
  · refine ⟨c - 0x20, hmem, ?_⟩
    rw [← m.upper_small hc, heq]

theorem upper_small {c : UInt16} (h : c ∈ small) :
    m.toUpperCase c = [0x53, 0x53] ∨ ∃ d ∈ capitals, m.toUpperCase c = [d] := by
  by_cases hc : c = 0xdf
  · rw [hc]
    exact .inl m.upper_sharp_s
  · exact .inr (upper_small_of_ne m h hc)

/-- An upper case form has no small letter. -/
theorem not_small_of_mem_upper {c d : UInt16} (h : d ∈ m.toUpperCase c) : d ∉ small := by
  intro hd
  have hidem := m.upper_idem h
  obtain hup | ⟨e, he, hup⟩ := upper_small m hd
  · rw [hup] at hidem
    cases hidem
  · obtain rfl : e = d := by simpa [hup] using hidem
    exact not_small_of_capital e he hd

/-- A lower case form has no capital. -/
theorem not_capital_of_mem_lower {c d : UInt16} (h : d ∈ m.toLowerCase c) : d ∉ capitals := by
  intro hd
  have hidem := m.lower_idem h
  rw [m.lower_capital (latin1Capital_of_capital d hd)] at hidem
  have hne : ∀ d ∈ capitals, d + 0x20 ≠ d := by decide
  exact hne d hd (List.singleton_inj.mp hidem)

theorem legal_iff {c : UInt16} :
    Legal m c ↔ c ∈ small ∨ c ∈ capitals ∨ c ∈ uppercase_after := by
  have hchars : ∀ c ∈ legal_chars, c ∈ small ∨ c ∈ uppercase_after := by decide
  constructor
  · intro h
    obtain h | h := h
    · exact (hchars c h).imp_right .inr
    · obtain ⟨a, ha, hc⟩ := List.mem_flatMap.mp h
      obtain ha | ha := hchars a ha
      · obtain hup | ⟨d, hd, hup⟩ := upper_small m ha
        · obtain rfl : c = 0x53 := by simpa [hup] using hc
          exact .inr (.inl (by decide))
        · obtain rfl : c = d := by simpa [hup] using hc
          exact .inr (.inl hd)
      · obtain rfl : c = a := by simpa [upper_separator m ha] using hc
        exact .inr (.inr ha)
  · intro h
    obtain h | h | h := h
    · exact .inl (List.mem_of_mem_filter h)
    · have hsmall : ∀ c ∈ capitals, c + 0x20 ∈ legal_chars := by decide
      refine .inr (List.mem_flatMap.mpr ⟨c + 0x20, hsmall c h, ?_⟩)
      rw [m.upper_small (latin1Capital_of_capital c h)]
      exact List.mem_singleton_self c
    · have hsep : ∀ c ∈ uppercase_after, c ∈ legal_chars := by decide
      exact .inl (hsep c h)

theorem not_separator_of_not_legal {c : UInt16} (h : ¬ Legal m c) : c ∉ uppercase_after :=
  fun hc => h ((legal_iff m).mpr (.inr (.inr hc)))

/-! ## The first loop -/

theorem cased_ne_nil (due : Bool) (c : UInt16) : cased m due c ≠ [] := by
  cases due with
  | true => exact m.upper_ne_nil c
  | false => exact m.lower_ne_nil c

theorem cased_separator {due : Bool} {c : UInt16} (h : c ∈ uppercase_after) :
    cased m due c = [c] := by
  cases due with
  | true => exact upper_separator m h
  | false => exact lower_separator m h

theorem eq_of_separator_mem_cased {due : Bool} {c d : UInt16} (h : d ∈ cased m due c)
    (hd : d ∈ uppercase_after) : d = c := by
  cases due with
  | true => exact (m.eq_of_mem_upper (sign_of_separator d hd) h).symm
  | false => exact (m.eq_of_mem_lower (sign_of_separator d hd) h).symm

theorem lower_tail {due : Bool} {c d : UInt16} (h : d ∈ (cased m due c).tail) :
    ∃ e, m.toLowerCase d = [e] := by
  cases due with
  | true => exact m.lower_tail h
  | false => exact ⟨d, m.lower_idem (List.mem_of_mem_tail h)⟩

/-- Only a separator itself has a separator in its forms. -/
theorem separator_head_iff {due : Bool} {c d : UInt16} {ds : List UInt16}
    (h : cased m due c = d :: ds) : d ∈ uppercase_after ↔ c ∈ uppercase_after := by
  constructor
  · intro hd
    have hmem : d ∈ cased m due c := h ▸ List.mem_cons_self
    rwa [← eq_of_separator_mem_cased m hmem hd]
  · intro hc
    rw [cased_separator m hc] at h
    cases h
    exact hc

theorem not_separator_of_tail {due : Bool} {c d : UInt16} {ds : List UInt16}
    (h : cased m due c = d :: ds) (hne : ds ≠ []) : c ∉ uppercase_after := by
  intro hc
  rw [cased_separator m hc] at h
  cases h
  exact hne rfl

/-- What follows the first character of a form becomes one character each in lower case,
and no separator is among them. -/
theorem tail_lower {due : Bool} {c d : UInt16} {ds : List UInt16} (h : cased m due c = d :: ds) :
    ∀ e ∈ ds, ∃ f, m.toLowerCase e = [f] ∧ f ∉ uppercase_after := by
  intro e he
  obtain ⟨f, hf⟩ := lower_tail m (h ▸ he : e ∈ (cased m due c).tail)
  refine ⟨f, hf, fun hsep => ?_⟩
  have hef : e = f := m.eq_of_mem_lower (sign_of_separator f hsep) (hf ▸ List.mem_singleton_self f)
  have hmem : e ∈ cased m due c := h ▸ List.mem_cons_of_mem d he
  have hec := eq_of_separator_mem_cased m hmem (hef ▸ hsep)
  rw [cased_separator m (hec ▸ hef ▸ hsep)] at h
  cases h
  cases he

theorem setChar_length_append (before : List UInt16) (c : UInt16) (after nc : List UInt16) :
    setChar (before ++ c :: after) before.length nc = before ++ (nc ++ after) := by
  simp [setChar]

theorem caseLoop_succ (fuel : ℕ) (before : List UInt16) (a b : UInt16) (after : List UInt16) :
    caseLoop m (fuel + 1) (before ++ a :: b :: after) before.length =
      caseLoop m fuel ((before ++ [a]) ++ (cased m (a ∈ uppercase_after) b ++ after))
        (before ++ [a]).length := by
  have hset (nc : List UInt16) :
      setChar (before ++ a :: b :: after) (before.length + 1) nc =
        (before ++ [a]) ++ (nc ++ after) := by
    have h := setChar_length_append (before ++ [a]) b after nc
    simpa using h
  have ha : (before ++ a :: b :: after)[before.length]? = some a := by simp
  have hb : (before ++ a :: b :: after)[before.length + 1]? = some b := by simp
  rw [caseLoop, ha, hb]
  by_cases hsep : a ∈ uppercase_after
  · simp [hsep, hset, cased]
  · simp [hsep, hset, cased]

/-- The loop over the rest of a form. -/
theorem caseLoop_tail {ds : List UInt16} (rest : List UInt16)
    (hds : ∀ e ∈ ds, ∃ f, m.toLowerCase e = [f] ∧ f ∉ uppercase_after) :
    ∀ (before : List UInt16) (a : UInt16), (ds ≠ [] → a ∉ uppercase_after) →
      ∃ before' b, before' ++ [b] = before ++ a :: ds.flatMap m.toLowerCase ∧
        (b ∈ uppercase_after ↔ a ∈ uppercase_after) ∧
        ∀ fuel, caseLoop m (fuel + ds.length) (before ++ a :: (ds ++ rest)) before.length =
          caseLoop m fuel (before' ++ b :: rest) before'.length := by
  induction ds with
  | nil =>
      intro before a _
      exact ⟨before, a, rfl, Iff.rfl, fun _ => rfl⟩
  | cons e ds ih =>
      intro before a ha
      obtain ⟨f, hf, hsep⟩ := hds e List.mem_cons_self
      have ha' := ha (List.cons_ne_nil e ds)
      obtain ⟨before', b, heq, hb, hloop⟩ := ih (fun e he => hds e (List.mem_cons_of_mem _ he))
        (before ++ [a]) f (fun _ => hsep)
      refine ⟨before', b, ?_, by simp [hb, hsep, ha'], fun fuel => ?_⟩
      · rw [heq, List.flatMap_cons, hf]
        simp
      · rw [← hloop, List.length_cons, ← Nat.add_assoc, List.cons_append, caseLoop_succ]
        simp [cased, ha', hf]

/-- The loop writes every character behind its index as its place asks for. -/
theorem caseLoop_writtenFrom (cs : List UInt16) : ∀ (before : List UInt16) (a : UInt16),
    ∃ n, ∀ fuel, n ≤ fuel → caseLoop m fuel (before ++ a :: cs) before.length =
      some (before ++ a :: writtenFrom m (a ∈ uppercase_after) cs) := by
  induction cs with
  | nil =>
      intro before a
      refine ⟨1, fun fuel hfuel => ?_⟩
      obtain ⟨fuel, rfl⟩ := Nat.exists_eq_add_of_le' hfuel
      simp [caseLoop, writtenFrom]
  | cons b cs ih =>
      intro before a
      cases hform : cased m (a ∈ uppercase_after) b with
      | nil => exact absurd hform (cased_ne_nil m _ b)
      | cons d ds =>
          have hsep := separator_head_iff m hform
          obtain ⟨before', b', heq, hb', hloop⟩ := caseLoop_tail m cs (tail_lower m hform)
            (before ++ [a]) d fun hne => mt hsep.mp (not_separator_of_tail m hform hne)
          obtain ⟨n, hn⟩ := ih before' b'
          refine ⟨n + ds.length + 1, fun fuel hfuel => ?_⟩
          obtain ⟨k, rfl⟩ := Nat.exists_eq_add_of_le' hfuel
          have hfrom : writtenFrom m (a ∈ uppercase_after) (b :: cs) =
              d :: ds.flatMap m.toLowerCase ++ writtenFrom m (b ∈ uppercase_after) cs := by
            simp only [writtenFrom, written, hform]
          rw [← Nat.add_assoc, caseLoop_succ, hform, List.cons_append, ← Nat.add_assoc, hloop,
            hn _ (Nat.le_add_left n k), hfrom]
          simp only [hb', hsep]
          have happ := congrArg (· ++ writtenFrom m (b ∈ uppercase_after) cs) heq
          simpa using happ

/-! ## The second loop -/

/-- What the second loop leaves.  The character behind a deleted one stays. -/
def sift : List UInt16 → List UInt16
  | [] => []
  | [c] => if Legal m c then [c] else []
  | c :: d :: cs => if Legal m c then c :: sift (d :: cs) else d :: sift cs

theorem sift_of_legal {c : UInt16} (h : Legal m c) (cs : List UInt16) :
    sift m (c :: cs) = c :: sift m cs := by
  cases cs with
  | nil => simp [sift, h]
  | cons d cs => simp [sift, h]

theorem sift_of_not_legal {c : UInt16} (h : ¬ Legal m c) (d : UInt16) (cs : List UInt16) :
    sift m (c :: d :: cs) = d :: sift m cs := by
  rw [sift, if_neg h]

theorem legalLoop_end (fuel : ℕ) {name : List UInt16} {i : ℕ} (h : name.length ≤ i) :
    legalLoop m (fuel + 1) name i = some name := by
  rw [legalLoop, List.getElem?_eq_none h]

theorem legalLoop_legal {c : UInt16} (h : Legal m c) (fuel : ℕ) (before after : List UInt16) :
    legalLoop m (fuel + 1) (before ++ c :: after) before.length =
      legalLoop m fuel ((before ++ [c]) ++ after) (before ++ [c]).length := by
  have hc : (before ++ c :: after)[before.length]? = some c := by simp
  rw [legalLoop, hc]
  simp [h]

theorem legalLoop_illegal {c : UInt16} (h : ¬ Legal m c) (fuel : ℕ) (before after : List UInt16) :
    legalLoop m (fuel + 1) (before ++ c :: after) before.length =
      legalLoop m fuel (before ++ after) (before.length + 1) := by
  have hc : (before ++ c :: after)[before.length]? = some c := by simp
  rw [legalLoop, hc]
  simp [h, setChar_length_append]

theorem legalLoop_sift (cs : List UInt16) : ∀ (before : List UInt16) (fuel : ℕ),
    cs.length ≤ fuel →
      legalLoop m (fuel + 1) (before ++ cs) before.length = some (before ++ sift m cs) := by
  induction cs using sift.induct m with
  | case1 =>
      intro before fuel _
      rw [legalLoop_end m fuel (by simp), sift]
  | case2 c hc =>
      intro before fuel hfuel
      obtain ⟨fuel, rfl⟩ := Nat.exists_eq_add_of_le' hfuel
      rw [List.length_singleton, legalLoop_legal m hc, legalLoop_end m fuel (by simp), sift,
        if_pos hc, List.append_nil]
  | case3 c hc =>
      intro before fuel hfuel
      obtain ⟨fuel, rfl⟩ := Nat.exists_eq_add_of_le' hfuel
      rw [List.length_singleton, legalLoop_illegal m hc, legalLoop_end m fuel (by simp), sift,
        if_neg hc]
  | case4 c d cs hc ih =>
      intro before fuel hfuel
      obtain ⟨fuel, rfl⟩ := Nat.exists_eq_add_of_le' hfuel
      have h := ih (before ++ [c]) (fuel + (d :: cs).length) (Nat.le_add_left _ _)
      rw [legalLoop_legal m hc]
      simpa [sift, hc, Nat.add_assoc] using h
  | case5 c d cs hc ih =>
      intro before fuel hfuel
      obtain ⟨fuel, rfl⟩ := Nat.exists_eq_add_of_le' hfuel
      have h := ih (before ++ [d]) (fuel + 1 + cs.length) (Nat.le_add_left _ _)
      rw [legalLoop_illegal m hc]
      simpa [sift, hc, Nat.add_assoc, Nat.add_comm 1] using h

theorem sanitize_namestring_returns (name : List UInt16) :
    Returns m name (sift m (spelling m name)) := by
  cases name with
  | nil => exact ⟨0, fun _ _ => rfl⟩
  | cons c cs =>
      obtain ⟨n, hn⟩ := caseLoop_writtenFrom m cs [] c
      refine ⟨max n ((spelling m (c :: cs)).length + 1), fun fuel hfuel => ?_⟩
      have hcase := hn fuel (le_trans (le_max_left _ _) hfuel)
      have hlegal : legalLoop m fuel (spelling m (c :: cs)) 0 =
          some (sift m (spelling m (c :: cs))) := by
        obtain ⟨k, rfl⟩ := Nat.exists_eq_add_of_le' (le_trans (le_max_right _ _) hfuel)
        exact legalLoop_sift m (spelling m (c :: cs)) [] _ (Nat.le_add_left _ k)
      rw [List.nil_append, List.length_nil] at hcase
      simpa [sanitize_namestring, hcase, setChar, spelling] using hlegal

theorem Returns.unique {m : CaseMapping} {name r r' : List UInt16} (h : Returns m name r)
    (h' : Returns m name r') : r = r' := by
  obtain ⟨n, hn⟩ := h
  obtain ⟨n', hn'⟩ := h'
  have heq := (hn (max n n') (le_max_left n n')).symm.trans (hn' (max n n') (le_max_right n n'))
  exact Option.some.inj heq

/-! ## Clean names stay -/

theorem sift_eq_self {w : List UInt16} (h : ∀ c ∈ w, Legal m c) : sift m w = w := by
  induction w with
  | nil => rfl
  | cons c cs ih =>
      rw [sift_of_legal m (h c List.mem_cons_self), ih fun d hd => h d (List.mem_cons_of_mem c hd)]

theorem written_eq_self {due : Bool} {c : UInt16}
    (hc : c ∈ small ∨ c ∈ capitals ∨ c ∈ uppercase_after)
    (h : c ∈ small ∨ c ∈ capitals → if due then c ∈ capitals else c ∈ small) :
    written m due c = [c] := by
  have hcased : cased m due c = [c] := by
    obtain hc | hc := or_assoc.mpr hc
    · cases due with
      | true => exact upper_capital m (h hc)
      | false => exact lower_small m (h hc)
    · exact cased_separator m hc
  rw [written, hcased]
  rfl

theorem writtenFrom_eq_self {name : List UInt16} {due : Bool}
    (hc : ∀ c ∈ name, c ∈ small ∨ c ∈ capitals ∨ c ∈ uppercase_after) (h : Spelled due name) :
    writtenFrom m due name = name := by
  induction name generalizing due with
  | nil => rfl
  | cons c cs ih =>
      rw [writtenFrom, written_eq_self m (hc c List.mem_cons_self) h.1,
        ih (fun d hd => hc d (List.mem_cons_of_mem c hd)) h.2]
      rfl

theorem Clean.spelling_eq_self {name : List UInt16} (h : Clean name) : spelling m name = name := by
  cases name with
  | nil => rfl
  | cons c cs =>
      have hrest := writtenFrom_eq_self m (fun d hd => h.legal d (List.mem_cons_of_mem c hd))
        h.spelled.2
      have hc : m.toUpperCase c = [c] := by
        obtain hc | hc := or_assoc.mpr (h.legal c List.mem_cons_self)
        · exact upper_capital m (h.spelled.1 hc)
        · exact upper_separator m hc
      rw [spelling, hrest, hc]
      rfl

theorem Clean.returns {name : List UInt16} (h : Clean name) : Returns m name name := by
  have hret := sanitize_namestring_returns m name
  rwa [h.spelling_eq_self, sift_eq_self m fun c hc => (legal_iff m).mpr (h.legal c hc)] at hret

/-! ## When the result is clean -/

theorem forall_legal_sift_iff {w : List UInt16} :
    (∀ c ∈ sift m w, Legal m c) ↔ w.IsChain fun c d => Legal m c ∨ Legal m d := by
  induction w using sift.induct m with
  | case1 => simp [sift]
  | case2 c hc => simp [sift, hc]
  | case3 c hc => simp [sift, hc]
  | case4 c d cs hc ih => simp [sift, hc, ih]
  | case5 c d cs hc ih =>
      rw [sift_of_not_legal m hc, List.forall_mem_cons, ih, List.isChain_cons_cons, or_iff_right hc]
      refine and_congr_right fun hd => ?_
      cases cs with
      | nil => simp
      | cons e cs => simp [hd]

theorem spelled_append {es w : List UInt16} (h : ∀ e ∈ es, e ∉ capitals ∧ e ∉ uppercase_after)
    (hw : Spelled false w) : Spelled false (es ++ w) := by
  induction es with
  | nil => exact hw
  | cons e es ih =>
      obtain ⟨he, hsep⟩ := h e List.mem_cons_self
      refine ⟨fun hletter => ?_, ?_⟩
      · simpa using hletter.resolve_right he
      · rw [decide_eq_false hsep]
        exact ih fun e he => h e (List.mem_cons_of_mem _ he)

/-- A spelling is right in every character but the first one. -/
theorem spelled_writtenFrom (cs : List UInt16) (due : Bool) :
    Spelled due (writtenFrom m due cs) := by
  induction cs generalizing due with
  | nil => trivial
  | cons c cs ih =>
      cases hform : cased m due c with
      | nil => exact absurd hform (cased_ne_nil m due c)
      | cons d ds =>
          have hd : d ∈ cased m due c := hform ▸ List.mem_cons_self
          rw [writtenFrom, written, hform]
          refine ⟨fun hletter => ?_, ?_⟩
          · cases due with
            | true => simpa using hletter.resolve_left (not_small_of_mem_upper m hd)
            | false => simpa using hletter.resolve_right (not_capital_of_mem_lower m hd)
          · cases ds with
            | nil => simpa [separator_head_iff m hform] using ih (c ∈ uppercase_after)
            | cons e es =>
                have hc := not_separator_of_tail m hform (List.cons_ne_nil e es)
                have hrest := ih (c ∈ uppercase_after)
                rw [decide_eq_false hc] at hrest
                rw [decide_eq_false (mt (separator_head_iff m hform).mp hc), decide_eq_false hc]
                refine spelled_append (fun f hf => ?_) hrest
                obtain ⟨g, hg, hfg⟩ := List.mem_flatMap.mp hf
                obtain ⟨k, hk, hsep⟩ := tail_lower m hform g hg
                obtain rfl : f = k := by simpa [hk] using hfg
                exact ⟨not_capital_of_mem_lower m hfg, hsep⟩

theorem noneLost_cons_of_legal {due : Bool} {c : UInt16} {cs : List UInt16} (h : Legal m c) :
    NoneLost m due (c :: cs) ↔ NoneLost m (c ∈ uppercase_after) cs :=
  and_iff_right fun _ hc => absurd h hc

theorem noneLost_cons_of_not_legal {due : Bool} {c d : UInt16} {cs : List UInt16}
    (h : ¬ Legal m c) :
    NoneLost m due (c :: d :: cs) ↔ (due = true → d ∉ small) ∧ NoneLost m false (d :: cs) := by
  rw [NoneLost, decide_eq_false (not_separator_of_not_legal m h)]
  simp [h]

/-- In a string that is spelled right, deletions spoil only what is lost. -/
theorem spelled_sift_iff {w : List UInt16} {due : Bool}
    (hw : w.IsChain fun c d => Legal m c ∨ Legal m d) (h : Spelled due w) :
    Spelled due (sift m w) ↔ NoneLost m due w := by
  induction w using sift.induct m generalizing due with
  | case1 => exact Iff.rfl
  | case2 c hc =>
      rw [noneLost_cons_of_legal m hc, sift, if_pos hc]
      exact iff_of_true h trivial
  | case3 c hc =>
      rw [sift, if_neg hc]
      refine iff_of_true trivial ⟨fun _ _ d hd => ?_, trivial⟩
      cases hd
  | case4 c d cs hc ih =>
      rw [sift_of_legal m hc, noneLost_cons_of_legal m hc, ← ih hw.of_cons h.2]
      exact and_iff_right h.1
  | case5 c d cs hc ih =>
      have hd : Legal m d := (List.isChain_cons_cons.mp hw).1.resolve_left hc
      have hrest := h.2
      rw [decide_eq_false (not_separator_of_not_legal m hc)] at hrest
      rw [sift_of_not_legal m hc, noneLost_cons_of_not_legal m hc, noneLost_cons_of_legal m hd,
        ← ih hw.of_cons.of_cons hrest.2]
      refine and_congr_left fun _ => ?_
      cases due with
      | true =>
          constructor
          · intro hcap _ hsmall
            exact not_small_of_capital d (hcap (.inl hsmall)) hsmall
          · intro hsmall hletter
            exact hletter.resolve_left (hsmall rfl)
      | false => exact iff_of_true hrest.1 nofun

theorem spelled_cons_of_not_legal {due : Bool} {c : UInt16} {w : List UInt16} (hc : ¬ Legal m c)
    (h : Spelled false w) : Spelled due (c :: w) := by
  refine ⟨fun hletter => ?_, ?_⟩
  · exact absurd ((legal_iff m).mpr (hletter.imp_right .inl)) hc
  · rw [decide_eq_false (not_separator_of_not_legal m hc)]
    exact h

/-- Where no capital is due, capitals in front must all be deleted. -/
theorem spelled_sift_append_iff {hs w : List UInt16}
    (hhs : ∀ c ∈ hs, c ∉ small ∧ c ∉ uppercase_after)
    (hw : (hs ++ w).IsChain fun c d => Legal m c ∨ Legal m d) (h : Spelled false w) :
    Spelled false (sift m (hs ++ w)) ↔
      NoneLost m false (hs ++ w) ∧ ∀ c ∈ hs, ¬ Legal m c := by
  have hfirst {c : UInt16} {cs : List UInt16} (hc : c ∈ hs) (hlegal : Legal m c) :
      ¬ Spelled false (c :: cs) := by
    intro hspelled
    obtain hletter | hsep := or_assoc.mpr ((legal_iff m).mp hlegal)
    · exact (hhs c hc).1 (by simpa using hspelled.1 hletter)
    · exact (hhs c hc).2 hsep
  cases hs with
  | nil => simpa using spelled_sift_iff m hw h
  | cons c hs =>
      by_cases hc : Legal m c
      · rw [List.cons_append, sift_of_legal m hc]
        refine iff_of_false (hfirst List.mem_cons_self hc) fun hnone => ?_
        exact hnone.2 c List.mem_cons_self hc
      · cases hs with
        | nil =>
            rw [spelled_sift_iff m hw (spelled_cons_of_not_legal m hc h)]
            exact (and_iff_left fun d hd => List.mem_singleton.mp hd ▸ hc).symm
        | cons d hs =>
            have hd : Legal m d := (List.isChain_cons_cons.mp hw).1.resolve_left hc
            have hmem : d ∈ c :: d :: hs := List.mem_cons_of_mem c List.mem_cons_self
            rw [List.cons_append, List.cons_append, sift_of_not_legal m hc]
            exact iff_of_false (hfirst hmem hd) fun hnone => hnone.2 d hmem hd

/-- Behind a capital that is legal, no other one may follow. -/
theorem spelled_sift_cons_iff {c : UInt16} {hs w : List UInt16}
    (hc : Legal m c) (hhs : ∀ d ∈ c :: hs, d ∉ small ∧ d ∉ uppercase_after)
    (hw : (c :: hs ++ w).IsChain fun c d => Legal m c ∨ Legal m d) (h : Spelled false w) :
    Spelled true (sift m (c :: hs ++ w)) ↔
      NoneLost m true (c :: hs ++ w) ∧ ((c :: hs).filter (Legal m ·)).length ≤ 1 := by
  obtain ⟨hsmall, hsep⟩ := hhs c List.mem_cons_self
  have hrest := spelled_sift_append_iff m (fun d hd => hhs d (List.mem_cons_of_mem c hd))
    hw.of_cons h
  have hfilter : ((c :: hs).filter (Legal m ·)).length ≤ 1 ↔ ∀ d ∈ hs, ¬ Legal m d := by
    simp [hc]
  rw [hfilter, List.cons_append, sift_of_legal m hc, noneLost_cons_of_legal m hc,
    decide_eq_false hsep, ← hrest, Spelled, decide_eq_false hsep]
  exact and_iff_right fun hletter => by simpa using hletter.resolve_left hsmall

/-- Where a capital is due, one of the capitals in front must be left. -/
theorem spelled_sift_upper_iff {hs w : List UInt16} (hne : hs ≠ [])
    (hhs : ∀ c ∈ hs, c ∉ small ∧ c ∉ uppercase_after)
    (hw : (hs ++ w).IsChain fun c d => Legal m c ∨ Legal m d) (h : Spelled false w) :
    Spelled true (sift m (hs ++ w)) ↔
      NoneLost m true (hs ++ w) ∧ (hs.filter (Legal m ·)).length ≤ 1 := by
  cases hs with
  | nil => exact absurd rfl hne
  | cons c hs =>
      by_cases hc : Legal m c
      · exact spelled_sift_cons_iff m hc hhs hw h
      · cases hs with
        | nil =>
            rw [spelled_sift_iff m hw (spelled_cons_of_not_legal m hc h)]
            exact (and_iff_left (by simp [hc])).symm
        | cons d hs =>
            have hd : Legal m d := (List.isChain_cons_cons.mp hw).1.resolve_left hc
            have hhs' : ∀ e ∈ d :: hs, e ∉ small ∧ e ∉ uppercase_after :=
              fun e he => hhs e (List.mem_cons_of_mem c he)
            have hrest := spelled_sift_cons_iff m hd hhs' hw.of_cons h
            have hsift : sift m (c :: d :: hs ++ w) = sift m (d :: hs ++ w) :=
              (sift_of_not_legal m hc d (hs ++ w)).trans (sift_of_legal m hd (hs ++ w)).symm
            have hlost : NoneLost m true (c :: d :: hs ++ w) ↔ NoneLost m true (d :: hs ++ w) := by
              have hsmall := (hhs' d List.mem_cons_self).1
              rw [List.cons_append, List.cons_append, noneLost_cons_of_not_legal m hc,
                noneLost_cons_of_legal m hd, noneLost_cons_of_legal m hd]
              exact and_iff_right fun _ => hsmall
            have hfilter : (c :: d :: hs).filter (Legal m ·) = (d :: hs).filter (Legal m ·) :=
              List.filter_cons_of_neg (by simpa using hc)
            rw [hsift, hrest, hlost, hfilter]

theorem spelled_sift_spelling_iff {c : UInt16} {cs : List UInt16}
    (hw : (spelling m (c :: cs)).IsChain fun c d => Legal m c ∨ Legal m d) :
    Spelled true (sift m (spelling m (c :: cs))) ↔
      NoneLost m true (spelling m (c :: cs)) ∧
        ((m.toUpperCase c).filter (Legal m ·)).length ≤ 1 := by
  have hrest := spelled_writtenFrom m cs (c ∈ uppercase_after)
  by_cases hsep : c ∈ uppercase_after
  · have hup := upper_separator m hsep
    have hspelled : Spelled true (spelling m (c :: cs)) := by
      rw [spelling, hup]
      refine ⟨fun hletter => ?_, hrest⟩
      exact (hletter.elim (not_small_of_separator c hsep) (not_capital_of_separator c hsep)).elim
    rw [spelled_sift_iff m hw hspelled, hup]
    exact (and_iff_left (List.length_filter_le _ _)).symm
  · rw [decide_eq_false hsep] at hrest
    simp only [spelling, decide_eq_false hsep] at hw ⊢
    refine spelled_sift_upper_iff m (m.upper_ne_nil c) (fun d hd => ?_) hw hrest
    refine ⟨not_small_of_mem_upper m hd, fun hd' => hsep ?_⟩
    rwa [m.eq_of_mem_upper (sign_of_separator d hd') hd]

theorem clean_sift_iff {name : List UInt16} :
    Clean (sift m (spelling m name)) ↔ Cleanable m name := by
  cases name with
  | nil => exact iff_of_true ⟨nofun, trivial⟩ ⟨.nil, trivial, nofun⟩
  | cons c cs =>
      constructor
      · intro h
        have hw := (forall_legal_sift_iff m).mp fun d hd => (legal_iff m).mpr (h.legal d hd)
        obtain ⟨hlost, hsingle⟩ := (spelled_sift_spelling_iff m hw).mp h.spelled
        refine ⟨hw, hlost, fun d hd => ?_⟩
        obtain rfl : c = d := by simpa using hd
        exact hsingle
      · intro h
        refine ⟨fun d hd => ?_, ?_⟩
        · exact (legal_iff m).mp ((forall_legal_sift_iff m).mpr h.apart d hd)
        · exact (spelled_sift_spelling_iff m h.apart).mpr ⟨h.noneLost, h.single c rfl⟩

/-! ## Names of legal characters -/

theorem legal_of_mem_upper {c d : UInt16} (hc : Legal m c) (hd : d ∈ m.toUpperCase c) :
    Legal m d := by
  rw [legal_iff] at hc ⊢
  obtain hc | hc | hc := hc
  · obtain hup | ⟨e, he, hup⟩ := upper_small m hc
    · obtain rfl : d = 0x53 := by simpa [hup] using hd
      exact .inr (.inl (by decide))
    · obtain rfl : d = e := by simpa [hup] using hd
      exact .inr (.inl he)
  · obtain rfl : d = c := by simpa [upper_capital m hc] using hd
    exact .inr (.inl hc)
  · obtain rfl : d = c := by simpa [upper_separator m hc] using hd
    exact .inr (.inr hc)

theorem legal_of_mem_lower {c d : UInt16} (hc : Legal m c) (hd : d ∈ m.toLowerCase c) :
    Legal m d := by
  rw [legal_iff] at hc ⊢
  obtain hc | hc | hc := hc
  · obtain rfl : d = c := by simpa [lower_small m hc] using hd
    exact .inl hc
  · have hsmall : ∀ c ∈ capitals, c + 0x20 ∈ small := by decide
    obtain rfl : d = c + 0x20 := by
      simpa [m.lower_capital (latin1Capital_of_capital c hc)] using hd
    exact .inl (hsmall c hc)
  · obtain rfl : d = c := by simpa [lower_separator m hc] using hd
    exact .inr (.inr hc)

theorem legal_of_mem_written {due : Bool} {c d : UInt16} (hc : Legal m c)
    (hd : d ∈ written m due c) : Legal m d := by
  have hcased : ∀ e ∈ cased m due c, Legal m e := by
    cases due with
    | true => exact fun e he => legal_of_mem_upper m hc he
    | false => exact fun e he => legal_of_mem_lower m hc he
  rw [written] at hd
  split at hd
  next => cases hd
  next e es hform =>
    rw [hform] at hcased
    obtain rfl | hd := List.mem_cons.mp hd
    · exact hcased d List.mem_cons_self
    · obtain ⟨f, hf, hdf⟩ := List.mem_flatMap.mp hd
      exact legal_of_mem_lower m (hcased f (List.mem_cons_of_mem e hf)) hdf

theorem legal_of_mem_writtenFrom {cs : List UInt16} (hcs : ∀ c ∈ cs, Legal m c) (due : Bool) :
    ∀ d ∈ writtenFrom m due cs, Legal m d := by
  induction cs generalizing due with
  | nil => nofun
  | cons c cs ih =>
      obtain ⟨hc, hcs⟩ := List.forall_mem_cons.mp hcs
      intro d hd
      obtain hd | hd := List.mem_append.mp hd
      · exact legal_of_mem_written m hc hd
      · exact ih hcs _ d hd

theorem noneLost_of_legal {w : List UInt16} (hw : ∀ c ∈ w, Legal m c) (due : Bool) :
    NoneLost m due w := by
  induction w generalizing due with
  | nil => trivial
  | cons c w ih =>
      obtain ⟨hc, hw⟩ := List.forall_mem_cons.mp hw
      exact (noneLost_cons_of_legal m hc).mpr (ih hw _)

/-- A name of legal characters becomes clean, unless it starts with a sharp s. -/
theorem cleanable_of_legal {name : List UInt16} (h : ∀ c ∈ name, Legal m c)
    (hfirst : name.head? ≠ some 0xdf) : Cleanable m name := by
  cases name with
  | nil => exact ⟨.nil, trivial, nofun⟩
  | cons c cs =>
      obtain ⟨hc, hcs⟩ := List.forall_mem_cons.mp h
      have hlegal : ∀ d ∈ spelling m (c :: cs), Legal m d := by
        intro d hd
        obtain hd | hd := List.mem_append.mp hd
        · exact legal_of_mem_upper m hc hd
        · exact legal_of_mem_writtenFrom m hcs _ d hd
      refine ⟨?_, noneLost_of_legal m hlegal true, fun d hd => ?_⟩
      · exact (forall_legal_sift_iff m).mp fun d hd => hlegal d (sift_eq_self m hlegal ▸ hd)
      · obtain rfl : c = d := by simpa using hd
        have hone : ∃ d, m.toUpperCase c = [d] := by
          obtain hc | hc | hc := (legal_iff m).mp hc
          · obtain ⟨d, -, hup⟩ := upper_small_of_ne m hc fun hc => hfirst (congrArg some hc)
            exact ⟨d, hup⟩
          · exact ⟨c, upper_capital m hc⟩
          · exact ⟨c, upper_separator m hc⟩
        obtain ⟨d, hup⟩ := hone
        rw [hup]
        exact List.length_filter_le _ _

/-- A call returns a clean name, which another call does not change, exactly when the
condition holds. -/
theorem sanitize_namestring_clean_iff (m : CaseMapping) (name : List UInt16) :
    ∃ r, Returns m name r ∧ (Clean r ∧ Returns m r r ↔ Cleanable m name) := by
  refine ⟨_, sanitize_namestring_returns m name, ?_⟩
  rw [← clean_sift_iff]
  exact and_iff_left_of_imp fun h => h.returns m

example : Cleanable .latin1 (units "anna1-lena") := ⟨by decide, by decide, by decide⟩

/-- A character that is not legal may hide the next one. -/
theorem digit_stays : ¬ ∀ (m : CaseMapping) (name : List UInt16),
    ∃ r, Returns m name r ∧ Clean r ∧ Returns m r r := by
  intro claim
  obtain ⟨r, hret, hclean, -⟩ := claim .latin1 (units "a12")
  have hrun : Returns .latin1 (units "a12") (units "A2") :=
    sanitize_namestring_returns .latin1 (units "a12")
  obtain rfl := hret.unique hrun
  exact absurd (hclean.legal 0x32 (by decide)) (by decide)

end SchuleAlsStaat.Names
