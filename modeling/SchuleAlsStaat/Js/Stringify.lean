import SchuleAlsStaat.Js.Numeral
import SchuleAlsStaat.Js.Parse

/-!
# JSON.stringify

A value is written without white space, its strings with the escapes of
`QuoteJSONString` and its numbers with `ToString`.  `JSON.parse` reads back every
value (`parse_stringify`).  A numeral it reads may be spelled differently, but
denotes the same number: `Json.Same`.
-/

namespace SchuleAlsStaat.Js

/-! ## Writing a value -/

/-- The characters of a four-digit hexadecimal number below 256. -/
def hexEscape (n : ℕ) : List Char :=
  let digit (k : ℕ) : Char := ("0123456789abcdef".toList).getD k '0'
  ['0', '0', digit (n / 16), digit (n % 16)]

/-- A character within a quoted string. -/
def quoteChar (c : Char) : List Char :=
  if c = '"' then ['\\', '"']
  else if c = '\\' then ['\\', '\\']
  else if c.toNat = 0x8 then ['\\', 'b']
  else if c.toNat = 0xc then ['\\', 'f']
  else if c.toNat = 0xa then ['\\', 'n']
  else if c.toNat = 0xd then ['\\', 'r']
  else if c.toNat = 0x9 then ['\\', 't']
  else if c.toNat < 0x20 then '\\' :: 'u' :: hexEscape c.toNat
  else [c]

/-- `QuoteJSONString`. -/
def quote (s : String) : List Char := '"' :: (s.toList.flatMap quoteChar ++ ['"'])

mutual

/-- The characters of a value. -/
def Json.text : Json → List Char
  | .null => "null".toList
  | .bool true => "true".toList
  | .bool false => "false".toList
  | .num d => d.numeral.render
  | .str s => quote s
  | .arr [] => ['[', ']']
  | .arr (v :: l) => '[' :: (Json.text v ++ Json.textArr l)
  | .obj [] => ['{', '}']
  | .obj ((key, v) :: fields) =>
      '{' :: (quote key ++ ':' :: (Json.text v ++ Json.textObj fields))

/-- The other elements of an array and its end. -/
def Json.textArr : List Json → List Char
  | [] => [']']
  | v :: l => ',' :: (Json.text v ++ Json.textArr l)

/-- The other members of an object and its end. -/
def Json.textObj : List (String × Json) → List Char
  | [] => ['}']
  | (key, v) :: fields => ',' :: (quote key ++ ':' :: (Json.text v ++ Json.textObj fields))

end

/-- `JSON.stringify`. -/
def Json.stringify (v : Json) : String := String.ofList v.text

/-! ## What is read back -/

/-- The numeral that is read for a number. -/
def Decimal.reread (d : Decimal) : Decimal := (jsonNumber d.numeral.render).getD d

mutual

/-- A value with its numbers spelled as `ToString` spells them. -/
def Json.reread : Json → Json
  | .num d => .num d.reread
  | .arr l => .arr (Json.rereadArr l)
  | .obj fields => .obj (Json.rereadObj fields)
  | v => v

def Json.rereadArr : List Json → List Json
  | [] => []
  | v :: l => Json.reread v :: Json.rereadArr l

def Json.rereadObj : List (String × Json) → List (String × Json)
  | [] => []
  | (key, v) :: fields => (key, Json.reread v) :: Json.rereadObj fields

end

/-! ## Numbers -/

section Numbers

variable {p : Numeral} {ds : List Char} {n : ℤ}

/-- A printed integer part has no needless zero in front. -/
theorem head_format (hne : ds ≠ []) (hhead : ds.head? ≠ some '0') :
    (Numeral.format [] ds n).int.head? ≠ some '0' ∨ (Numeral.format [] ds n).int = ['0'] := by
  obtain ⟨c, cs, rfl⟩ := List.exists_cons_of_ne_nil hne
  rw [Numeral.format]
  split
  · exact .inl hhead
  split
  next _ h =>
    obtain ⟨k, hk⟩ : ∃ k, n.toNat = k + 1 := ⟨n.toNat - 1, by omega⟩
    rw [hk]
    exact .inl hhead
  split
  · exact .inr rfl
  · exact .inl hhead

/-- The sign stands in front of the digits. -/
theorem render_format_minus :
    (Numeral.format ['-'] ds n).render = '-' :: (Numeral.format [] ds n).render := by
  simp only [Numeral.format]
  split
  · rfl
  split
  · rfl
  split <;> rfl

/-- What follows the integer part. -/
def Numeral.rest (p : Numeral) : List Char :=
  (if p.frac = [] then [] else '.' :: p.frac) ++ p.exponentText

theorem takeWhile_digits {l r : List Char} (hl : ∀ c ∈ l, c.isDigit = true)
    (hr : ∀ c ∈ r.head?, c.isDigit = false) :
    (l ++ r).takeWhile Char.isDigit = l ∧ (l ++ r).dropWhile Char.isDigit = r := by
  have hstop : r.takeWhile Char.isDigit = [] ∧ r.dropWhile Char.isDigit = r := by
    cases r with
    | nil => exact ⟨rfl, rfl⟩
    | cons c r =>
        have hc := hr c rfl
        simp [hc]
  rw [List.takeWhile_append_of_pos hl, List.dropWhile_append_of_pos hl, hstop.1, hstop.2,
    List.append_nil]
  exact ⟨rfl, rfl⟩

theorem signedInt_exponent {es : List Char} (neg : Bool) (hne : es ≠ [])
    (hd : ∀ c ∈ es, c.isDigit = true) : signedInt ((if neg then '-' else '+') :: es) =
      some (if neg then -(natOfDigits es : ℤ) else natOfDigits es) := by
  have hall : es.all Char.isDigit = true := List.all_eq_true.mpr hd
  cases neg <;> simp [signedInt, hne, hall]

/-- A number whose parts are split. -/
def readParts (neg : Bool) (int : List Char) (hasPoint : Bool) (frac rest : List Char) :
    Option Decimal :=
  let exp : Option ℤ := match rest with
    | [] => some 0
    | c :: r => if c = 'e' ∨ c = 'E' then signedInt r else none
  if int = [] ∨ (int.head? = some '0' ∧ 1 < int.length) ∨ (hasPoint ∧ frac = []) then none
  else exp.map fun e =>
    let n : ℤ := natOfDigits (int ++ frac)
    ⟨if neg then -n else n, e - frac.length⟩


/-- What follows the digits before the point: whether there is a point, the
digits after it, and the exponent. -/
def afterInt : List Char → Bool × List Char × List Char
  | '.' :: r => (true, r.takeWhile Char.isDigit, r.dropWhile Char.isDigit)
  | r => (false, [], r)

/-- The parts of a number after its sign. -/
def readUnsigned (neg : Bool) (cs : List Char) : Option Decimal :=
  let t := afterInt (cs.dropWhile Char.isDigit)
  readParts neg (cs.takeWhile Char.isDigit) t.1 t.2.1 t.2.2

theorem jsonNumber_minus (cs : List Char) : jsonNumber ('-' :: cs) = readUnsigned true cs := by
  rw [jsonNumber]
  split
  next hasPoint frac rest h =>
    have ht : afterInt (cs.dropWhile Char.isDigit) = (hasPoint, frac, rest) := h
    rw [readUnsigned, ht]
    rfl

theorem jsonNumber_of_ne {cs : List Char} (h : cs.head? ≠ some '-') :
    jsonNumber cs = readUnsigned false cs := by
  rw [jsonNumber]
  · split
    next hasPoint frac rest h =>
      have ht : afterInt (cs.dropWhile Char.isDigit) = (hasPoint, frac, rest) := h
      rw [readUnsigned, ht]
      rfl
  · rintro r rfl
    exact h rfl

theorem digit_int (h : p.Printed) : p.int ≠ [] ∧ (∀ c ∈ p.int, c.isDigit = true) ∧
    ∀ c ∈ p.frac, c.isDigit = true := by
  cases h with
  | integer hne hd => exact ⟨hne, hd, by simp⟩
  | point hne hd _ hf _ => exact ⟨hne, hd, hf⟩
  | exponent hc _ hf _ _ _ => exact ⟨by simp, by simpa using hc, hf⟩

/-- The exponent starts with a letter. -/
theorem head_exponentText (p : Numeral) : ∀ c ∈ p.exponentText.head?, c.isDigit = false := by
  rw [Numeral.exponentText.eq_def]
  split <;> simp

theorem afterInt_rest (h : p.Printed) :
    afterInt p.rest = (decide (p.frac ≠ []), p.frac, p.exponentText) := by
  obtain ⟨-, -, hf⟩ := digit_int h
  by_cases hfrac : p.frac = []
  · have hrest : p.rest = p.exponentText := by rw [Numeral.rest, if_pos hfrac, List.nil_append]
    rw [hrest, hfrac]
    rw [Numeral.exponentText.eq_def]
    split <;> rfl
  · have hrest : p.rest = '.' :: (p.frac ++ p.exponentText) := by
      rw [Numeral.rest, if_neg hfrac, List.cons_append]
    obtain ⟨ht, hd⟩ := takeWhile_digits hf (head_exponentText p)
    rw [hrest, afterInt, ht, hd]
    simp [hfrac]

/-- The exponent that is read. -/
theorem readParts_exponent (neg hasPoint : Bool) (int frac : List Char) (h : p.Printed)
    (hok : ¬ (int = [] ∨ (int.head? = some '0' ∧ 1 < int.length) ∨ (hasPoint ∧ frac = []))) :
    readParts neg int hasPoint frac p.exponentText = some
      ⟨if neg then -(natOfDigits (int ++ frac) : ℤ) else natOfDigits (int ++ frac),
        p.exponent - frac.length⟩ := by
  rw [readParts.eq_def]
  dsimp only
  rw [if_neg hok]
  cases h with
  | integer => rfl
  | point => rfl
  | @exponent c fs es sign _ _ _ _ hne hd =>
      have hread := signedInt_exponent sign hne hd
      simp only [Numeral.exponentText, true_or, if_true, hread, Option.map_some,
        Numeral.exponent]
      cases sign <;> rfl

/-- A printed number is read with its sign, its digits and its last place. -/
theorem jsonNumber_render (neg : Bool) (h : p.Printed)
    (hhead : p.int.head? ≠ some '0' ∨ p.int = ['0']) :
    jsonNumber ((if neg then ['-'] else []) ++ p.render) =
      some ⟨if neg then -(natOfDigits (p.int ++ p.frac) : ℤ) else natOfDigits (p.int ++ p.frac),
        -p.places⟩ := by
  obtain ⟨hne, hd, -⟩ := digit_int h
  have hrest : ∀ c ∈ p.rest.head?, c.isDigit = false := by
    by_cases hfrac : p.frac = []
    · rw [Numeral.rest, if_pos hfrac, List.nil_append]
      exact head_exponentText p
    · rw [Numeral.rest, if_neg hfrac]
      simp
  have hread : readUnsigned neg p.render = some
      ⟨if neg then -(natOfDigits (p.int ++ p.frac) : ℤ) else natOfDigits (p.int ++ p.frac),
        -p.places⟩ := by
    obtain ⟨ht, hdrop⟩ := takeWhile_digits hd hrest
    rw [readUnsigned]
    have hrender : p.render = p.int ++ p.rest := rfl
    simp only [hrender, ht, hdrop, afterInt_rest h]
    rw [readParts_exponent neg _ p.int p.frac h]
    · rw [Numeral.places, neg_sub]
    · rintro (hint | ⟨h0, hlen⟩ | ⟨hpoint, hfrac⟩)
      · exact hne hint
      · rcases hhead with hhead | hhead
        · exact hhead h0
        · simp [hhead] at hlen
      · exact absurd hfrac (of_decide_eq_true hpoint)
  cases neg with
  | true => exact (jsonNumber_minus _).trans hread
  | false =>
      refine (jsonNumber_of_ne ?_).trans hread
      obtain ⟨c, cs, hint⟩ := List.exists_cons_of_ne_nil hne
      have hc : c.isDigit = true := hd c (hint ▸ List.mem_cons_self ..)
      rw [Numeral.render, hint]
      rintro hminus
      cases hminus
      exact absurd hc (by decide)

end Numbers

namespace Decimal

variable {d : Decimal}

theorem value_pos (h : 0 < d.coeff) : 0 < d.value := by
  have hcoeff : (0 : ℚ) < d.coeff := by exact_mod_cast h
  exact mul_pos hcoeff (zpow_pos (by norm_num) d.exp)

/-- The numeral of a positive number has no needless zero in front. -/
theorem head_numeral (h : 0 < d.coeff) :
    d.numeral.int.head? ≠ some '0' ∨ d.numeral.int = ['0'] := by
  obtain ⟨hne, hhead⟩ := stripZeros_digits (n := d.coeff.natAbs) (by omega)
  rw [numeral, if_neg h.ne', if_neg h.not_gt]
  exact head_format hne hhead

/-- A negative number is written like its absolute value, with a minus. -/
theorem render_neg (h : 0 < d.coeff) :
    (⟨-d.coeff, d.exp⟩ : Decimal).numeral.render = '-' :: d.numeral.render := by
  simp only [numeral, Int.natAbs_neg, neg_eq_zero, if_neg h.ne', neg_lt_zero, if_pos h,
    if_neg h.not_gt]
  exact render_format_minus

/-- A number is read as it is written. -/
theorem exists_read (d : Decimal) :
    ∃ e, jsonNumber d.numeral.render = some e ∧ e.value = d.value := by
  rcases lt_trichotomy d.coeff 0 with h | h | h
  · have hpos : 0 < (⟨-d.coeff, d.exp⟩ : Decimal).coeff := Int.neg_pos.mpr h
    obtain ⟨hp, hvalue⟩ := numeral_of_pos (value_pos hpos)
    have hrender := render_neg hpos
    simp only [neg_neg] at hrender
    refine ⟨_, (congrArg jsonNumber hrender).trans (jsonNumber_render true hp (head_numeral hpos)), ?_⟩
    rw [Numeral.value] at hvalue
    simp only [value, if_true, Int.cast_neg, Int.cast_natCast, neg_mul] at hvalue ⊢
    rw [hvalue, neg_neg]
  · have hzero : jsonNumber d.numeral.render = some ⟨0, 0⟩ := by
      rw [numeral, if_pos h]
      rfl
    refine ⟨_, hzero, ?_⟩
    simp [value, h]
  · obtain ⟨hp, hvalue⟩ := numeral_of_pos (value_pos h)
    refine ⟨_, jsonNumber_render false hp (head_numeral h), ?_⟩
    rw [← hvalue, Numeral.value, value]
    simp

theorem jsonNumber_numeral (d : Decimal) : jsonNumber d.numeral.render = some d.reread := by
  obtain ⟨e, he, -⟩ := exists_read d
  rw [reread, he]
  rfl

theorem reread_value (d : Decimal) : d.reread.value = d.value := by
  obtain ⟨e, he, hvalue⟩ := exists_read d
  rw [reread, he]
  exact hvalue

end Decimal

/-! ## Strings -/

/-- The code units of characters stand for the characters. -/
theorem decodeUnits_toNat (cs : List Char) : decodeUnits (cs.map Char.toNat) = cs := by
  induction cs with
  | nil => rfl
  | cons c cs ih =>
      have hvalid : c.toNat < 0xd800 ∨ 0xdfff < c.toNat ∧ c.toNat < 0x110000 := c.valid
      have hc : Char.ofNat c.toNat = c := Char.ofNat_toNat c
      rw [List.map_cons, decodeUnits.eq_def]
      dsimp only
      rw [if_neg (by omega), if_neg (by omega), ih, hc]

theorem lex_cons (s : Lex) (c : Char) (cs : List Char) : lex s (c :: cs) =
    (s.next c).bind fun p => (lex p.2 cs).map fun tokens => p.1 ++ tokens := rfl

/-- A character that completes no token. -/
theorem lex_of_next {s s' : Lex} {c : Char} (h : s.next c = some ([], s')) (cs : List Char) :
    lex s (c :: cs) = lex s' cs := by
  rw [lex_cons, h, Option.bind_some]
  simp

/-- An escape sequence of one letter. -/
theorem lex_escape {units : List ℕ} {c : Char} {u : ℕ} (hu : c ≠ 'u') (h : Lex.escaped c = some u)
    (rest : List Char) :
    lex (.string units) ('\\' :: c :: rest) = lex (.string (u :: units)) rest := by
  have first : (Lex.string units).next '\\' = some ([], .escape units) := rfl
  have second : (Lex.escape units).next c = some ([], .string (u :: units)) := by
    simp [Lex.next, hu, h]
  rw [lex_of_next first, lex_of_next second]

/-- An escape sequence of a code unit. -/
theorem lex_unicode {units : List ℕ} {n : ℕ} (h : n < 0x20) (rest : List Char) :
    lex (.string units) ('\\' :: 'u' :: hexEscape n ++ rest) = lex (.string (n :: units)) rest := by
  have digits : ∀ n : Fin 0x20, (hexDigit? '0').isSome ∧ ∃ a b,
      hexEscape n = ['0', '0', a, b] ∧ (hexDigit? a).isSome ∧
        hexValue ['0', '0', a, b] = some n.val := by
    intro n
    refine ⟨rfl, "0123456789abcdef".toList.getD (n / 16) '0',
      "0123456789abcdef".toList.getD (n % 16) '0', rfl, ?_⟩
    revert n
    decide +kernel
  obtain ⟨hzero, a, b, hesc, ha, hvalue⟩ := digits ⟨n, h⟩
  have first : (Lex.string units).next '\\' = some ([], .escape units) := rfl
  have second : (Lex.escape units).next 'u' = some ([], .unicode units []) := rfl
  have third : (Lex.unicode units []).next '0' = some ([], .unicode units ['0']) := rfl
  have fourth : (Lex.unicode units ['0']).next '0' = some ([], .unicode units ['0', '0']) := rfl
  have fifth : (Lex.unicode units ['0', '0']).next a = some ([], .unicode units [a, '0', '0']) := by
    simp [Lex.next, ha]
  have last : (Lex.unicode units [a, '0', '0']).next b = some ([], .string (n :: units)) := by
    simp [Lex.next, hvalue]
  simp only at hesc
  rw [hesc]
  simp only [List.cons_append, List.nil_append]
  rw [lex_of_next first, lex_of_next second, lex_of_next third, lex_of_next fourth,
    lex_of_next fifth, lex_of_next last]

/-- A quoted character is read as its code point. -/
theorem lex_quoteChar (units : List ℕ) (c : Char) (rest : List Char) :
    lex (.string units) (quoteChar c ++ rest) = lex (.string (c.toNat :: units)) rest := by
  have control {n : ℕ} {e : Char} (hn : c.toNat = n) (hu : e ≠ 'u')
      (he : Lex.escaped e = some n) :
      lex (.string units) (['\\', e] ++ rest) = lex (.string (c.toNat :: units)) rest := by
    rw [hn]
    exact lex_escape hu he rest
  rw [quoteChar]
  split
  next h => exact control (congrArg Char.toNat h) (by decide) rfl
  split
  next h => exact control (congrArg Char.toNat h) (by decide) rfl
  split
  next h => exact control h (by decide) rfl
  split
  next h => exact control h (by decide) rfl
  split
  next h => exact control h (by decide) rfl
  split
  next h => exact control h (by decide) rfl
  split
  next h => exact control h (by decide) rfl
  split
  next h => exact lex_unicode h rest
  next hquote hslash _ _ _ _ _ h =>
    refine lex_of_next ?_ rest
    rw [Lex.next, if_neg hquote, if_neg hslash, if_neg h]

theorem lex_quoteChars (cs : List Char) (units : List ℕ) (rest : List Char) :
    lex (.string units) (cs.flatMap quoteChar ++ rest) =
      lex (.string ((cs.map Char.toNat).reverse ++ units)) rest := by
  induction cs generalizing units with
  | nil => rfl
  | cons c cs ih =>
      rw [List.flatMap_cons, List.append_assoc, lex_quoteChar, ih]
      simp

/-- A quoted string is one token. -/
theorem lex_quote (s : String) (rest : List Char) :
    lex .between (quote s ++ rest) = (lex .between rest).map (.str s :: ·) := by
  have first : Lex.between.next '"' = some ([], .string []) := rfl
  rw [quote, List.cons_append, List.append_assoc, lex_of_next first, lex_quoteChars,
    List.append_nil, List.singleton_append, lex_cons]
  have last : (Lex.string (s.toList.map Char.toNat).reverse).next '"' =
      some ([.str s], .between) := by
    rw [Lex.next, if_pos rfl, List.reverse_reverse, decodeUnits_toNat, String.ofList_toList]
  rw [last, Option.bind_some]
  rfl

/-! ## Words and numbers -/

/-- What may follow a value: the end of the text, of its array or object, or
the next element. -/
def Ends (rest : List Char) : Prop := ∀ c ∈ rest.head?, c = ',' ∨ c = ']' ∨ c = '\x7d'

/-- A token ends before a character that does not belong to it. -/
theorem lex_flush {s : Lex} {tokens : List Token} {rest : List Char} (hs : s.flush = some tokens)
    (h : ∀ c ∈ rest.head?, s.next c = s.flush.bind fun done =>
      (Lex.start c).map fun p => (done ++ p.1, p.2)) :
    lex s rest = (lex .between rest).map (tokens ++ ·) := by
  cases rest with
  | nil =>
      have hend : lex .between [] = some [] := rfl
      rw [lex, hs, hend, Option.map_some, List.append_nil]
  | cons c rest =>
      have hstart : Lex.between.next c = Lex.start c := rfl
      rw [lex_cons, lex_cons, h c rfl, hs, hstart, Option.bind_some]
      cases Lex.start c with
      | none => rfl
      | some p =>
          simp only [Option.map_some, Option.bind_some, Option.map_map]
          congr 1
          funext l
          simp

/-- The characters of a number. -/
def numberChar (c : Char) : Prop :=
  c.isDigit = true ∨ c = '.' ∨ c = 'e' ∨ c = 'E' ∨ c = '+' ∨ c = '-'

theorem lex_numberChars {ds : List Char} (h : ∀ c ∈ ds, numberChar c) (cs rest : List Char) :
    lex (.number cs) (ds ++ rest) = lex (.number (ds.reverse ++ cs)) rest := by
  induction ds generalizing cs with
  | nil => rfl
  | cons d ds ih =>
      have hd : (Lex.number cs).next d = some ([], .number (d :: cs)) := by
        have hchar := h d (List.mem_cons_self ..)
        rw [numberChar] at hchar
        rw [Lex.next, if_pos hchar]
      rw [List.cons_append, lex_of_next hd, ih fun c hc => h c (List.mem_cons_of_mem _ hc)]
      simp

theorem Ends.not_numberChar {rest : List Char} (h : Ends rest) :
    ∀ c ∈ rest.head?, ¬ numberChar c := by
  intro c hc
  rcases h c hc with rfl | rfl | rfl <;> simp [numberChar]

/-- The characters of a printed number, of which the first one is a digit. -/
theorem numberChar_render {p : Numeral} (h : p.Printed) :
    (∀ c ∈ p.render, numberChar c) ∧ ∃ c cs, p.render = c :: cs ∧ c.isDigit = true := by
  obtain ⟨hne, hd, hf⟩ := digit_int h
  have hexp : ∀ c ∈ p.exponentText, numberChar c := by
    cases h with
    | integer => simp [Numeral.exponentText]
    | point => simp [Numeral.exponentText]
    | @exponent c fs es neg _ _ _ _ _ hes =>
        intro c' hc'
        simp only [Numeral.exponentText, List.mem_cons] at hc'
        rcases hc' with rfl | rfl | hc'
        · simp [numberChar]
        · cases neg <;> simp [numberChar]
        · exact .inl (hes c' hc')
  constructor
  · intro c hc
    rcases List.mem_append.mp hc with hc | hc
    · exact .inl (hd c hc)
    · rcases List.mem_append.mp hc with hc | hc
      · split at hc
        next => cases hc
        next =>
          rcases List.mem_cons.mp hc with rfl | hc
          · exact .inr (.inl rfl)
          · exact .inl (hf c hc)
      · exact hexp c hc
  · obtain ⟨c, cs, hint⟩ := List.exists_cons_of_ne_nil hne
    refine ⟨c, cs ++ p.rest, ?_, hd c (hint ▸ List.mem_cons_self ..)⟩
    rw [Numeral.render, hint, List.cons_append, Numeral.rest]

/-- The first character of a number starts it. -/
theorem numberChar_numeral (d : Decimal) : (∀ c ∈ d.numeral.render, numberChar c) ∧
    ∃ c cs, d.numeral.render = c :: cs ∧ Lex.start c = some ([], .number [c]) := by
  have start {c : Char} (hc : c.isDigit = true) : Lex.start c = some ([], .number [c]) := by
    rw [Lex.start.eq_def]
    split <;> first | rfl | exact absurd hc (by decide) | skip
    rw [if_pos hc]
  rcases lt_trichotomy d.coeff 0 with h | h | h
  · have hpos : 0 < (⟨-d.coeff, d.exp⟩ : Decimal).coeff := Int.neg_pos.mpr h
    obtain ⟨hp, -⟩ := Decimal.numeral_of_pos (Decimal.value_pos hpos)
    have hrender := Decimal.render_neg hpos
    simp only [neg_neg] at hrender
    rw [hrender]
    refine ⟨fun c hc => ?_, '-', _, rfl, rfl⟩
    rcases List.mem_cons.mp hc with rfl | hc
    · simp [numberChar]
    · exact (numberChar_render hp).1 c hc
  · have hzero : d.numeral.render = ['0'] := by
      rw [Decimal.numeral, if_pos h]
      rfl
    rw [hzero]
    exact ⟨by simp [numberChar], '0', [], rfl, rfl⟩
  · obtain ⟨hp, -⟩ := Decimal.numeral_of_pos (Decimal.value_pos h)
    obtain ⟨hall, c, cs, hcs, hc⟩ := numberChar_render hp
    exact ⟨hall, c, cs, hcs, start hc⟩

/-- A number is one token. -/
theorem lex_number (d : Decimal) {rest : List Char} (h : Ends rest) :
    lex .between (d.numeral.render ++ rest) = (lex .between rest).map (.num d.reread :: ·) := by
  obtain ⟨hall, c, cs, hcs, hstart⟩ := numberChar_numeral d
  have first : Lex.between.next c = some ([], .number [c]) := hstart
  have hflush : (Lex.number d.numeral.render.reverse).flush = some [.num d.reread] := by
    rw [Lex.flush, List.reverse_reverse, Decimal.jsonNumber_numeral]
    rfl
  have hread : lex .between (d.numeral.render ++ rest) =
      lex (.number d.numeral.render.reverse) rest := by
    rw [hcs] at hall ⊢
    rw [List.cons_append, lex_of_next first,
      lex_numberChars fun c hc => hall c (List.mem_cons_of_mem _ hc)]
    simp
  rw [hread]
  refine lex_flush hflush fun c hc => ?_
  have hchar := h.not_numberChar c hc
  rw [numberChar] at hchar
  rw [Lex.next, if_neg hchar]

theorem lex_wordChars {w : List Char} (h : ∀ c ∈ w, c.isLower = true) (cs rest : List Char) :
    lex (.word cs) (w ++ rest) = lex (.word (w.reverse ++ cs)) rest := by
  induction w generalizing cs with
  | nil => rfl
  | cons d w ih =>
      have hd : (Lex.word cs).next d = some ([], .word (d :: cs)) := by
        rw [Lex.next, if_pos (h d (List.mem_cons_self ..))]
      rw [List.cons_append, lex_of_next hd, ih fun c hc => h c (List.mem_cons_of_mem _ hc)]
      simp

/-- A word is one token. -/
theorem lex_word {c : Char} {w : List Char} {t : Token} {rest : List Char}
    (hstart : Lex.start c = some ([], .word [c])) (hw : w.all Char.isLower = true)
    (hflush : (Lex.word (c :: w).reverse).flush = some [t]) (h : Ends rest) :
    lex .between (c :: w ++ rest) = (lex .between rest).map (t :: ·) := by
  have first : Lex.between.next c = some ([], .word [c]) := hstart
  have hread : lex .between (c :: w ++ rest) = lex (.word (c :: w).reverse) rest := by
    rw [List.cons_append, lex_of_next first, lex_wordChars (List.all_eq_true.mp hw),
      List.reverse_cons]
  rw [hread]
  refine lex_flush hflush fun c hc => ?_
  have hlow : ¬ c.isLower = true := by
    rcases h c hc with rfl | rfl | rfl <;> decide
  rw [Lex.next, if_neg hlow]

/-! ## Values -/

/-- A character that is a token. -/
theorem lex_punctuation {c : Char} {t : Token} (h : Lex.start c = some ([t], .between))
    {cs : List Char} {o : Option (List Token)} (hcs : lex .between cs = o) :
    lex .between (c :: cs) = o.map (t :: ·) := by
  have first : Lex.between.next c = some ([t], .between) := h
  rw [lex_cons, first, Option.bind_some, ← hcs]
  rfl

theorem ends_textArr (l : List Json) (rest : List Char) : Ends (Json.textArr l ++ rest) := by
  cases l <;> simp [Ends, Json.textArr]

theorem ends_textObj (fields : List (String × Json)) (rest : List Char) :
    Ends (Json.textObj fields ++ rest) := by
  cases fields <;> simp [Ends, Json.textObj]

/-- The tokens of a member of an object, its value and what follows. -/
theorem lex_member (key : String) {v : Json} {cs rest : List Char} {ts : List Token}
    (hv : lex .between (v.text ++ (cs ++ rest)) =
      (lex .between (cs ++ rest)).map (v.reread.tokens ++ ·))
    (hcs : lex .between (cs ++ rest) = (lex .between rest).map (ts ++ ·)) :
    lex .between (quote key ++ ':' :: (v.text ++ (cs ++ rest))) =
      (lex .between rest).map (.str key :: .colon :: (v.reread.tokens ++ ts) ++ ·) := by
  rw [hcs, Option.map_map] at hv
  rw [lex_quote, lex_punctuation (t := .colon) rfl hv, Option.map_map, Option.map_map]
  congr 1
  funext l
  simp

mutual

/-- The text of a value has the tokens of the value. -/
theorem lex_text : ∀ (v : Json) {rest : List Char}, Ends rest →
    lex .between (v.text ++ rest) = (lex .between rest).map (v.reread.tokens ++ ·)
  | .null, _, h => lex_word rfl rfl rfl h
  | .bool true, _, h => lex_word rfl rfl rfl h
  | .bool false, _, h => lex_word rfl rfl rfl h
  | .num d, _, h => lex_number d h
  | .str s, _, _ => lex_quote s _
  | .arr [], rest, _ => by
      have hclose := lex_punctuation (c := ']') rfl (rfl : lex .between rest = lex .between rest)
      have hopen := lex_punctuation (c := '[') rfl hclose
      rw [Option.map_map] at hopen
      exact hopen
  | .arr (v :: l), rest, _ => by
      have hv := lex_text v (ends_textArr l rest)
      rw [lex_textArr l rest, Option.map_map] at hv
      have hopen := lex_punctuation (c := '[') rfl hv
      rw [Json.text, List.cons_append, List.append_assoc, hopen, Option.map_map, Json.reread,
        Json.rereadArr, Json.tokens]
      congr 1
      funext l
      simp
  | .obj [], rest, _ => by
      have hclose := lex_punctuation (c := '\x7d') rfl (rfl : lex .between rest = lex .between rest)
      have hopen := lex_punctuation (c := '\x7b') rfl hclose
      rw [Option.map_map] at hopen
      exact hopen
  | .obj ((key, v) :: fields), rest, _ => by
      have hv := lex_text v (ends_textObj fields rest)
      have hmember := lex_member key hv (lex_textObj fields rest)
      have hopen := lex_punctuation (c := '\x7b') rfl hmember
      rw [Json.text, List.cons_append, List.append_assoc, List.cons_append, List.append_assoc,
        hopen, Option.map_map, Json.reread, Json.rereadObj, Json.tokens]
      rfl

theorem lex_textArr : ∀ (l : List Json) (rest : List Char),
    lex .between (Json.textArr l ++ rest) =
      (lex .between rest).map (Json.tokensArr (Json.rereadArr l) ++ ·)
  | [], rest => lex_punctuation (c := ']') rfl rfl
  | v :: l, rest => by
      have hv := lex_text v (ends_textArr l rest)
      rw [lex_textArr l rest, Option.map_map] at hv
      have hcomma := lex_punctuation (c := ',') rfl hv
      rw [Json.textArr, List.cons_append, List.append_assoc, hcomma, Option.map_map,
        Json.rereadArr, Json.tokensArr]
      congr 1
      funext l
      simp

theorem lex_textObj : ∀ (fields : List (String × Json)) (rest : List Char),
    lex .between (Json.textObj fields ++ rest) =
      (lex .between rest).map (Json.tokensObj (Json.rereadObj fields) ++ ·)
  | [], rest => lex_punctuation (c := '\x7d') rfl rfl
  | (key, v) :: fields, rest => by
      have hv := lex_text v (ends_textObj fields rest)
      have hmember := lex_member key hv (lex_textObj fields rest)
      have hcomma := lex_punctuation (c := ',') rfl hmember
      rw [Json.textObj, List.cons_append, List.append_assoc, List.cons_append, List.append_assoc,
        hcomma, Option.map_map, Json.rereadObj, Json.tokensObj]
      rfl

end

/-- `JSON.parse` reads back what `JSON.stringify` writes. -/
theorem parse_stringify (v : Json) : Json.parse v.stringify = .ok v.reread := by
  refine Json.parse_of_lex ?_
  have hend : Ends [] := by simp [Ends]
  have h := lex_text v hend
  rw [List.append_nil] at h
  rw [Json.stringify, String.toList_ofList, h]
  simp [lex, Lex.flush]

/-! ## The same value -/

mutual

/-- The values differ at most in how their numbers are spelled. -/
def Json.Same : Json → Json → Prop
  | .null, .null => True
  | .bool b, .bool c => b = c
  | .num d, .num e => d.value = e.value
  | .str s, .str t => s = t
  | .arr l, .arr l' => Json.SameArr l l'
  | .obj fields, .obj fields' => Json.SameObj fields fields'
  | _, _ => False

def Json.SameArr : List Json → List Json → Prop
  | [], [] => True
  | v :: l, v' :: l' => Json.Same v v' ∧ Json.SameArr l l'
  | _, _ => False

def Json.SameObj : List (String × Json) → List (String × Json) → Prop
  | [], [] => True
  | (key, v) :: fields, (key', v') :: fields' =>
      key = key' ∧ Json.Same v v' ∧ Json.SameObj fields fields'
  | _, _ => False

end

mutual

theorem same_reread : ∀ v : Json, Json.Same v v.reread
  | .null => trivial
  | .bool _ => rfl
  | .num d => (Decimal.reread_value d).symm
  | .str _ => rfl
  | .arr l => same_rereadArr l
  | .obj fields => same_rereadObj fields

theorem same_rereadArr : ∀ l : List Json, Json.SameArr l (Json.rereadArr l)
  | [] => trivial
  | v :: l => ⟨same_reread v, same_rereadArr l⟩

theorem same_rereadObj : ∀ fields : List (String × Json),
    Json.SameObj fields (Json.rereadObj fields)
  | [] => trivial
  | (_, v) :: fields => ⟨rfl, same_reread v, same_rereadObj fields⟩

end

example : Json.stringify (.obj [("a", .num ⟨-15, 1⟩), ("b", .arr [.str "x\n", .null])]) =
    "\x7b\"a\":-150,\"b\":[\"x\\n\",null]\x7d" := by decide +kernel

end SchuleAlsStaat.Js
