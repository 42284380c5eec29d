import Mathlib.Data.List.Basic
import Mathlib.Order.Notation

/-!
# Base64

Three bytes are written as four characters of six bits each, and the last group
is filled up with `=`.  The decoder skips every character outside of the
alphabet, so a text may be broken into lines anywhere (`decode_eq_of_filter`).
It knows the alphabet for URLs as well.
-/

namespace Base64

def alphabet : List Char :=
  "ABCDEFGHIJKLMNOPQRSTUVWXYZabcdefghijklmnopqrstuvwxyz0123456789+/".toList

/-- The character of six bits. -/
def char (v : ℕ) : Char := alphabet.getD v '='

/-- The six bits of a character. -/
def value? : Char → Option ℕ
  | '-' => some 62
  | '_' => some 63
  | c => alphabet.idxOf? c

theorem value?_char {v : ℕ} (h : v < 64) : value? (char v) = some v := by
  have all : ∀ v : Fin 64, value? (char v) = some v.val := by decide +kernel
  exact all ⟨v, h⟩

@[simp] theorem value?_padding : value? '=' = none := by decide +kernel

/-! ## Encoding and decoding -/

def encode : List UInt8 → List Char
  | [] => []
  | [a] => [char (a.toNat / 4), char (a.toNat % 4 * 16), '=', '=']
  | [a, b] =>
      [char (a.toNat / 4), char (a.toNat % 4 * 16 + b.toNat / 16), char (b.toNat % 16 * 4), '=']
  | a :: b :: c :: bs =>
      char (a.toNat / 4) :: char (a.toNat % 4 * 16 + b.toNat / 16) ::
        char (b.toNat % 16 * 4 + c.toNat / 64) :: char (c.toNat % 64) :: encode bs

/-- The bytes of groups of six bits.  What a last group lacks of a byte is
dropped. -/
def bytes : List ℕ → List UInt8
  | v :: w :: x :: y :: vs =>
      UInt8.ofNat (v * 4 + w / 16) :: UInt8.ofNat (w % 16 * 16 + x / 4) ::
        UInt8.ofNat (x % 4 * 64 + y) :: bytes vs
  | [v, w, x] => [UInt8.ofNat (v * 4 + w / 16), UInt8.ofNat (w % 16 * 16 + x / 4)]
  | [v, w] => [UInt8.ofNat (v * 4 + w / 16)]
  | _ => []

def decode (cs : List Char) : List UInt8 := bytes (cs.filterMap value?)

/-! ## Round trip -/

/-- A byte from its two parts. -/
theorem ofNat_parts {a : UInt8} {n : ℕ} (h : n = a.toNat) : UInt8.ofNat n = a := by
  rw [h]
  exact UInt8.ofNat_toNat

theorem decode_encode (bs : List UInt8) : decode (encode bs) = bs := by
  induction bs using encode.induct with
  | case1 => rfl
  | case2 a =>
      have ha := a.toNat_lt
      have hv : a.toNat / 4 < 64 := by omega
      have hw : a.toNat % 4 * 16 < 64 := by omega
      simp only [decode, encode, List.filterMap_cons, List.filterMap_nil, value?_char hv,
        value?_char hw, value?_padding, bytes]
      rw [ofNat_parts (a := a) (by omega)]
  | case3 a b =>
      have ha := a.toNat_lt
      have hb := b.toNat_lt
      have hv : a.toNat / 4 < 64 := by omega
      have hw : a.toNat % 4 * 16 + b.toNat / 16 < 64 := by omega
      have hx : b.toNat % 16 * 4 < 64 := by omega
      simp only [decode, encode, List.filterMap_cons, List.filterMap_nil, value?_char hv,
        value?_char hw, value?_char hx, value?_padding, bytes]
      rw [ofNat_parts (a := a) (by omega), ofNat_parts (a := b) (by omega)]
  | case4 a b c bs ih =>
      have ha := a.toNat_lt
      have hb := b.toNat_lt
      have hc := c.toNat_lt
      have hv : a.toNat / 4 < 64 := by omega
      have hw : a.toNat % 4 * 16 + b.toNat / 16 < 64 := by omega
      have hx : b.toNat % 16 * 4 + c.toNat / 64 < 64 := by omega
      have hy : c.toNat % 64 < 64 := by omega
      rw [decode] at ih
      simp only [decode, encode, List.filterMap_cons, value?_char hv, value?_char hw,
        value?_char hx, value?_char hy, bytes]
      rw [ofNat_parts (a := a) (by omega), ofNat_parts (a := b) (by omega),
        ofNat_parts (a := c) (by omega), ih]

/-- Only the characters with a value count. -/
theorem decode_eq_of_filter {cs ds : List Char}
    (h : ds.filter (fun c => (value? c).isSome) = cs.filter fun c => (value? c).isSome) :
    decode ds = decode cs := by
  have only (l : List Char) :
      l.filterMap value? = (l.filter fun c => (value? c).isSome).filterMap value? := by
    rw [List.filterMap_filter]
    refine List.filterMap_congr fun c _ => ?_
    cases value? c <;> rfl
  rw [decode, decode, only ds, only cs, h]

end Base64
