import Mathlib.Data.List.Basic
import SchuleAlsStaat.Js.Value

/-!
# Percent-encoding

`decodeURIComponent` replaces escapes by the characters whose UTF-8 encoding they
are, and throws a `URIError` on any other escape.  `Encodes` is the grammar of the
strings that it decodes.
-/

namespace SchuleAlsStaat.Js

/-- The byte of two hexadecimal digits. -/
def hexByte? (a b : Char) : Option UInt8 :=
  match hexDigit? a, hexDigit? b with
  | some x, some y => some (UInt8.ofNat (16 * x + y))
  | _, _ => none

/-- The bytes of the escapes that a string starts with. -/
def escapes : List Char → List UInt8
  | '%' :: a :: b :: s =>
      match hexByte? a b with
      | some x => x :: escapes s
      | none => []
  | _ => []

/-- `decodeURIComponent` on at most so many characters. -/
def decodeUpTo : ℕ → List Char → Except Exn (List Char)
  | _, [] => .ok []
  | 0, _ => .error (.error "URI malformed")
  | n + 1, c :: s =>
      if c = '%' then
        match (escapes (c :: s)).toByteArray.utf8DecodeChar? 0 with
        | some d => (decodeUpTo n ((c :: s).drop (3 * d.utf8Size))).map (d :: ·)
        | none => .error (.error "URI malformed")
      else (decodeUpTo n s).map (c :: ·)

def decodeURIComponent (s : List Char) : Except Exn (List Char) := decodeUpTo s.length s

/-! ## What is decoded -/

/-- The escapes of some bytes. -/
inductive Escaped : List UInt8 → List Char → Prop where
  | nil : Escaped [] []
  | cons {a b : Char} {x : UInt8} {xs : List UInt8} {s : List Char} : hexByte? a b = some x →
      Escaped xs s → Escaped (x :: xs) ('%' :: a :: b :: s)

/-- A string is an encoding of another one: each character stands for itself or is
escaped, and a percent sign is always escaped. -/
inductive Encodes : List Char → List Char → Prop where
  | nil : Encodes [] []
  | char {c : Char} {s t : List Char} : c ≠ '%' → Encodes s t → Encodes (c :: s) (c :: t)
  | escape {c : Char} {e s t : List Char} : Escaped (String.utf8EncodeChar c) e → Encodes s t →
      Encodes (e ++ s) (c :: t)

theorem map_eq_ok {α β : Type} {r : Except Exn α} {f : α → β} {b : β} (h : r.map f = .ok b) :
    ∃ a, r = .ok a ∧ f a = b := by
  cases r with
  | error e => cases h
  | ok a => exact ⟨a, rfl, Except.ok.inj h⟩

theorem Escaped.length {xs : List UInt8} {e : List Char} (h : Escaped xs e) :
    e.length = 3 * xs.length := by
  induction h with
  | nil => rfl
  | cons _ _ ih =>
      simp only [List.length_cons, ih]
      ring

theorem Escaped.percent {xs : List UInt8} {e : List Char} (h : Escaped xs e) (hne : xs ≠ []) :
    ∃ e', e = '%' :: e' := by
  cases h with
  | nil => exact absurd rfl hne
  | cons => exact ⟨_, rfl⟩

theorem Escaped.escapes_append {xs : List UInt8} {e : List Char} (h : Escaped xs e)
    (s : List Char) : escapes (e ++ s) = xs ++ escapes s := by
  induction h with
  | nil => rfl
  | cons hx _ ih => simp only [List.cons_append, escapes, hx, ih]

/-- The first bytes are those of the first escapes. -/
theorem escaped_take (s : List Char) {k : ℕ} (hk : k ≤ (escapes s).length) :
    Escaped ((escapes s).take k) (s.take (3 * k)) := by
  induction s using escapes.induct generalizing k with
  | case1 a b s x hx ih =>
      cases k with
      | zero => exact .nil
      | succ k =>
          simp only [escapes, hx] at hk ⊢
          rw [List.take_succ_cons, Nat.mul_succ, List.take_succ_cons, List.take_succ_cons,
            List.take_succ_cons]
          exact .cons hx (ih (by simpa using hk))
  | case2 a b s hx =>
      simp only [escapes, hx] at hk ⊢
      obtain rfl : k = 0 := by simpa using hk
      exact .nil
  | case3 s h =>
      have hnil : escapes s = [] := by
        rw [escapes]
        exact h
      rw [hnil] at hk ⊢
      obtain rfl : k = 0 := by simpa using hk
      exact .nil

/-- The first character of some bytes is the one whose encoding they start with. -/
theorem utf8DecodeChar_eq_some_iff {xs : List UInt8} {c : Char} :
    xs.toByteArray.utf8DecodeChar? 0 = some c ↔ ∃ rest, xs = String.utf8EncodeChar c ++ rest := by
  constructor
  · intro h
    obtain ⟨rest, hrest⟩ := ByteArray.exists_of_utf8DecodeChar?_eq_some h
    refine ⟨rest.data.toList, ?_⟩
    have hbytes := congrArg (fun b : ByteArray => b.data.toList) hrest
    simpa using hbytes
  · rintro ⟨rest, rfl⟩
    rw [List.toByteArray_append]
    exact ByteArray.utf8DecodeChar?_utf8EncodeChar_append

theorem encodes_of_decodeUpTo {n : ℕ} {s t : List Char} (h : decodeUpTo n s = .ok t) :
    Encodes s t := by
  induction n generalizing s t with
  | zero =>
      cases s with
      | nil =>
          cases h
          exact .nil
      | cons c s => cases h
  | succ n ih =>
      cases s with
      | nil =>
          cases h
          exact .nil
      | cons c s =>
          rw [decodeUpTo] at h
          split at h
          next hc =>
            split at h
            next d hd =>
              obtain ⟨rest, hrest⟩ := utf8DecodeChar_eq_some_iff.mp hd
              obtain ⟨t', ht', rfl⟩ := map_eq_ok h
              have hsize : (String.utf8EncodeChar d).length = d.utf8Size :=
                String.length_utf8EncodeChar d
              have escaped := escaped_take (c :: s) (k := d.utf8Size) (by
                rw [hrest, List.length_append, hsize]
                exact Nat.le_add_right _ _)
              rw [hrest, ← hsize, List.take_left] at escaped
              have tail := Encodes.escape escaped (ih ht')
              rwa [hsize, List.take_append_drop] at tail
            next => cases h
          next hc =>
            obtain ⟨t', ht', rfl⟩ := map_eq_ok h
            exact .char hc (ih ht')

theorem decodeUpTo_of_encodes {s t : List Char} (h : Encodes s t) {n : ℕ} (hn : s.length ≤ n) :
    decodeUpTo n s = .ok t := by
  induction h generalizing n with
  | nil => cases n <;> rfl
  | char hc _ ih =>
      obtain ⟨m, rfl⟩ : ∃ m, n = m + 1 := Nat.exists_eq_succ_of_ne_zero (by
        rw [List.length_cons] at hn
        omega)
      rw [decodeUpTo, if_neg hc, ih (by simpa using hn)]
      rfl
  | @escape d e s t he _ ih =>
      have hsize : (String.utf8EncodeChar d).length = d.utf8Size := String.length_utf8EncodeChar d
      have hlength := he.length
      have hpos := d.utf8Size_pos
      have hdecode : (escapes (e ++ s)).toByteArray.utf8DecodeChar? 0 = some d := by
        rw [he.escapes_append]
        exact utf8DecodeChar_eq_some_iff.mpr ⟨_, rfl⟩
      have hdrop : (e ++ s).drop (3 * d.utf8Size) = s := by
        rw [← hsize, ← hlength, List.drop_left]
      -- the first character is a percent sign
      obtain ⟨e', rfl⟩ := he.percent (List.ne_nil_of_length_pos (by omega))
      obtain ⟨m, rfl⟩ : ∃ m, n = m + 1 := Nat.exists_eq_succ_of_ne_zero (by
        rw [List.cons_append, List.length_cons] at hn
        omega)
      rw [List.cons_append] at hn hdecode hdrop ⊢
      rw [decodeUpTo, if_pos rfl, hdecode]
      simp only [hdrop]
      rw [ih (by rw [List.length_cons, List.length_append] at *; omega)]
      rfl

/-- A string is decoded exactly when it is an encoding. -/
theorem decodeURIComponent_eq_ok_iff {s t : List Char} :
    decodeURIComponent s = .ok t ↔ Encodes s t :=
  ⟨encodes_of_decodeUpTo, fun h => decodeUpTo_of_encodes h le_rfl⟩

end SchuleAlsStaat.Js
