import SchuleAlsStaat.Js.UriComponent

/-!
# Buffers

A buffer is a list of bytes.  As a binary string it has one character for each
byte, and as text it is read as UTF-8.
-/

namespace SchuleAlsStaat.Js

/-! ## Binary strings -/

/-- `buf.toString("binary")`. -/
def binary (bs : List UInt8) : String := String.ofList (bs.map fun b => Char.ofNat b.toNat)

/-- `new Buffer(s, "binary")`. -/
def ofBinary (s : String) : List UInt8 := s.toList.map fun c => UInt8.ofNat c.toNat

theorem length_binary (bs : List UInt8) : (binary bs).length = bs.length := by
  rw [binary, String.length_ofList, List.length_map]

theorem toNat_ofNat_byte (b : UInt8) : (Char.ofNat b.toNat).toNat = b.toNat := by
  have hb := b.toNat_lt
  have hvalid : b.toNat.isValidChar := .inl (by omega)
  rw [Char.ofNat, dif_pos hvalid]
  exact UInt32.toNat_ofNatLT

theorem ofBinary_binary (bs : List UInt8) : ofBinary (binary bs) = bs := by
  rw [ofBinary, binary, String.toList_ofList, List.map_map]
  refine (List.map_congr_left fun b _ => ?_).trans (List.map_id bs)
  rw [Function.comp_apply, toNat_ofNat_byte]
  exact UInt8.ofNat_toNat

/-! ## UTF-8 -/

/-- `new Buffer(s)`. -/
def utf8 (s : String) : List UInt8 := s.toList.flatMap String.utf8EncodeChar

/-- The text of at most so many bytes.  A byte that starts no character is
replaced. -/
def decodeUtf8 : ℕ → List UInt8 → List Char
  | 0, _ => []
  | _, [] => []
  | n + 1, b :: bs =>
      match (b :: bs).toByteArray.utf8DecodeChar? 0 with
      | some c => c :: decodeUtf8 n ((b :: bs).drop c.utf8Size)
      | none => Char.ofNat 0xfffd :: decodeUtf8 n bs

/-- `buf.toString("utf8")`. -/
def utf8Text (bs : List UInt8) : String := String.ofList (decodeUtf8 bs.length bs)

theorem decodeUtf8_encode (cs : List Char) {n : ℕ}
    (h : (cs.flatMap String.utf8EncodeChar).length ≤ n) :
    decodeUtf8 n (cs.flatMap String.utf8EncodeChar) = cs := by
  induction cs generalizing n with
  | nil => cases n <;> rfl
  | cons c cs ih =>
      rw [List.flatMap_cons] at h ⊢
      have hlen : (String.utf8EncodeChar c).length = c.utf8Size := String.length_utf8EncodeChar c
      have hsize := c.utf8Size_pos
      rw [List.length_append, hlen] at h
      cases n with
      | zero => omega
      | succ n =>
          cases hbytes : String.utf8EncodeChar c ++ cs.flatMap String.utf8EncodeChar with
          | nil =>
              rw [List.append_eq_nil_iff] at hbytes
              rw [hbytes.1] at hlen
              simp only [List.length_nil] at hlen
              omega
          | cons b bs =>
              have hdecode : (b :: bs).toByteArray.utf8DecodeChar? 0 = some c :=
                utf8DecodeChar_eq_some_iff.mpr ⟨_, hbytes.symm⟩
              have hdrop : (b :: bs).drop c.utf8Size = cs.flatMap String.utf8EncodeChar := by
                rw [← hbytes, ← hlen, List.drop_left]
              rw [decodeUtf8]
              simp only [hdecode, hdrop]
              rw [ih (by omega)]

theorem utf8Text_utf8 (s : String) : utf8Text (utf8 s) = s := by
  rw [utf8Text, utf8, decodeUtf8_encode _ le_rfl, String.ofList_toList]

/-- Text in ASCII has the same bytes as a binary string. -/
theorem binary_utf8 {s : String} (h : ∀ c ∈ s.toList, c.toNat < 128) :
    binary (utf8 s) = s ∧ (utf8 s).length = s.length := by
  have hbytes : utf8 s = s.toList.map fun c => UInt8.ofNat c.toNat := by
    rw [utf8]
    generalize s.toList = cs at h ⊢
    induction cs with
    | nil => rfl
    | cons c cs ih =>
        have hc : c.toNat < 128 := h c (List.mem_cons_self ..)
        have hchar : String.utf8EncodeChar c = [UInt8.ofNat c.toNat] := by
          have hsize : c.utf8Size = 1 := Char.utf8Size_eq_one_iff.mpr (by
            rw [UInt32.le_iff_toNat_le]
            exact Nat.le_of_lt_succ hc)
          rw [String.utf8EncodeChar_eq_singleton hsize]
          rfl
        rw [List.flatMap_cons, hchar, ih fun c hc => h c (List.mem_cons_of_mem _ hc)]
        rfl
  constructor
  · rw [binary, hbytes, List.map_map]
    refine String.toList_inj.mp ?_
    rw [String.toList_ofList]
    refine (List.map_congr_left fun c hc => ?_).trans (List.map_id s.toList)
    have hc : c.toNat < 128 := h c hc
    have hnat : (UInt8.ofNat c.toNat).toNat = c.toNat := by
      rw [UInt8.toNat_ofNat']
      omega
    rw [Function.comp_apply, hnat]
    exact Char.ofNat_toNat c
  · rw [hbytes, List.length_map, String.length_toList]

end SchuleAlsStaat.Js
