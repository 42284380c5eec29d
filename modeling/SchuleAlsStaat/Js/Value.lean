import Mathlib.Data.Rat.Floor
import Mathlib.Tactic.NormNum
import Mathlib.Data.Nat.Digits.Defs

/-!
# JavaScript values

The values that reach the server are JSON values and `undefined`.  `JsVal` is
an optional `Json`, with `none` for `undefined`.

Arithmetic is exact.  A JSON number is the decimal numeral it is written as,
and `Number` holds its rational value or `NaN`.  There is no rounding to a double
and so no `Infinity`: an operation that has no exact result, such as a
division by zero, gives `NaN`.

The conversions follow ECMAScript (`ToString`, `ToNumber`, `==`).  They throw a
`TypeError` on an object with an own `toString` property, since no JSON value
can be called, and on an array that holds one.
-/

namespace SchuleAlsStaat.Js

/-- What a piece of JavaScript code throws. -/
inductive Exn where
  | typeError
  | syntaxError
  /-- An error of a library or of the file system. -/
  | error (message : String)
deriving DecidableEq, Repr

theorem except_bind_eq_ok {α β : Type} {x : Except Exn α} {f : α → Except Exn β} {b : β}
    (h : (x >>= f) = .ok b) : ∃ a, x = .ok a ∧ f a = .ok b := by
  cases x with
  | error e => cases h
  | ok a => exact ⟨a, rfl, h⟩

theorem except_ok_bind {α β : Type} (a : α) (f : α → Except Exn β) :
    ((.ok a : Except Exn α) >>= f) = f a := rfl

/-! ## Numbers -/

/-- A decimal numeral: `coeff * 10 ^ exp`. -/
structure Decimal where
  coeff : ℤ
  exp : ℤ
deriving DecidableEq, Repr

def Decimal.value (d : Decimal) : ℚ := d.coeff * 10 ^ d.exp

def Decimal.add (d e : Decimal) : Decimal :=
  let exp := min d.exp e.exp
  ⟨d.coeff * 10 ^ (d.exp - exp).toNat + e.coeff * 10 ^ (e.exp - exp).toNat, exp⟩

/-- A JavaScript number in exact arithmetic. -/
inductive Number where
  | nan
  | fin (q : ℚ)
deriving DecidableEq, Repr

namespace Number

def lift₂ (f : ℚ → ℚ → ℚ) : Number → Number → Number
  | .fin a, .fin b => .fin (f a b)
  | _, _ => .nan

instance : Add Number := ⟨lift₂ (· + ·)⟩
instance : Sub Number := ⟨lift₂ (· - ·)⟩
instance : Mul Number := ⟨lift₂ (· * ·)⟩

instance : Div Number where
  div
    | .fin a, .fin b => if b = 0 then .nan else .fin (a / b)
    | _, _ => .nan

/-- `a < b`, false when one of them is `NaN`. -/
def lt : Number → Number → Bool
  | .fin a, .fin b => a < b
  | _, _ => false

/-- `Math.ceil`. -/
def ceil : Number → Number
  | .fin a => .fin ⌈a⌉
  | .nan => .nan

@[simp] theorem fin_add (a b : ℚ) : fin a + fin b = fin (a + b) := rfl
@[simp] theorem fin_sub (a b : ℚ) : fin a - fin b = fin (a - b) := rfl
@[simp] theorem fin_mul (a b : ℚ) : fin a * fin b = fin (a * b) := rfl
@[simp] theorem ceil_fin (a : ℚ) : (fin a).ceil = fin ⌈a⌉ := rfl
@[simp] theorem fin_lt_fin (a b : ℚ) : (fin a).lt (fin b) = decide (a < b) := rfl

theorem fin_div {b : ℚ} (a : ℚ) (h : b ≠ 0) : fin a / fin b = fin (a / b) := if_neg h

@[simp] theorem nan_sub (b : Number) : nan - b = nan := rfl
@[simp] theorem sub_nan (a : Number) : a - nan = nan := by cases a <;> rfl
@[simp] theorem nan_lt (b : Number) : nan.lt b = false := rfl

end Number

/-! ## JSON values -/

inductive Json where
  | null
  | bool (b : Bool)
  | num (d : Decimal)
  | str (s : String)
  | arr (l : List Json)
  | obj (fields : List (String × Json))

/-- A JSON value or `undefined`. -/
abbrev JsVal := Option Json

abbrev undefined : JsVal := none

namespace Json

/-- The own property `key`.  `JSON.parse` keeps the last of equal keys. -/
def field (key : String) (fields : List (String × Json)) : JsVal :=
  (fields.reverse.find? fun f => f.1 == key).map Prod.snd

/-- `v.key`, for a key that no built-in prototype has. -/
def prop (key : String) : Json → Except Exn JsVal
  | .null => .error .typeError
  | .obj fields => .ok (field key fields)
  | _ => .ok undefined

/-- `key in v`, for a key that no built-in prototype has. -/
def hasProp (key : String) : Json → Except Exn Bool
  | .obj fields => .ok (field key fields).isSome
  | .arr _ => .ok false
  | _ => .error .typeError

def truthy : Json → Bool
  | .null => false
  | .bool b => b
  | .num d => d.coeff ≠ 0
  | .str s => s ≠ ""
  | .arr _ => true
  | .obj _ => true

def isNull : Json → Bool
  | .null => true
  | _ => false

end Json

namespace JsVal

def prop (key : String) : JsVal → Except Exn JsVal
  | none => .error .typeError
  | some v => v.prop key

def hasProp (key : String) : JsVal → Except Exn Bool
  | none => .error .typeError
  | some v => v.hasProp key

def truthy : JsVal → Bool
  | none => false
  | some v => v.truthy

@[simp] theorem truthy_none : truthy none = false := rfl
@[simp] theorem truthy_some (v : Json) : truthy (some v) = v.truthy := rfl

/-- `Number.isFinite`: the value is a number, without conversion. -/
def isFinite : JsVal → Option ℚ
  | some (.num d) => some d.value
  | _ => none

end JsVal

/-! ## Numbers as strings -/

/-- The parts of a numeral as a string: what stands before the point, the
digits after it, and the exponent with its sign. -/
structure Numeral where
  int : List Char
  frac : List Char
  exp : Option (Bool × List Char)
deriving DecidableEq, Repr

/-- The characters of the exponent. -/
def Numeral.exponentText (p : Numeral) : List Char :=
  match p.exp with
  | none => []
  | some (neg, ds) => 'e' :: (if neg then '-' else '+') :: ds

/-- The characters of a numeral. -/
def Numeral.render (p : Numeral) : List Char :=
  p.int ++ ((if p.frac = [] then [] else '.' :: p.frac) ++ p.exponentText)

/-- The decimal digits of a number. -/
def digits (n : ℕ) : List Char := Nat.toDigits 10 n

/-- Digits without the zeros at the end. -/
def stripZeros (ds : List Char) : List Char := (ds.reverse.dropWhile (· = '0')).reverse

/-- `Number::toString` on the digits `ds` and the position `n` of the point
relative to the first digit, with the sign in front. -/
def Numeral.format (sign ds : List Char) (n : ℤ) : Numeral :=
  if (ds.length : ℤ) ≤ n ∧ n ≤ 21 then
    ⟨sign ++ ds ++ List.replicate (n.toNat - ds.length) '0', [], none⟩
  else if 0 < n ∧ n ≤ 21 then
    ⟨sign ++ ds.take n.toNat, ds.drop n.toNat, none⟩
  else if -6 < n ∧ n ≤ 0 then
    ⟨sign ++ ['0'], List.replicate (-n).toNat '0' ++ ds, none⟩
  else
    ⟨sign ++ ds.take 1, ds.drop 1, some (n - 1 < 0, digits (n - 1).natAbs)⟩

/-- `ToString` of a number, as a numeral. -/
def Decimal.numeral (d : Decimal) : Numeral :=
  if d.coeff = 0 then ⟨['0'], [], none⟩
  else
    let all := digits d.coeff.natAbs
    Numeral.format (if d.coeff < 0 then ['-'] else []) (stripZeros all) (all.length + d.exp)

def Decimal.toString (d : Decimal) : String := String.ofList d.numeral.render

/-! ## Conversions -/

mutual

/-- `ToString`.  `none` stands for a `TypeError`. -/
def Json.toStr : Json → Option String
  | .null => some "null"
  | .bool true => some "true"
  | .bool false => some "false"
  | .num d => some d.toString
  | .str s => some s
  | .arr l => Json.joinStr l
  | .obj fields => if (Json.field "toString" fields).isSome then none else some "[object Object]"
termination_by structural v => v

/-- `Array.prototype.join` with a comma.  A `null` element is empty. -/
def Json.joinStr : List Json → Option String
  | [] => some ""
  | v :: vs =>
      match (if v.isNull then some "" else Json.toStr v), Json.joinStr vs with
      | some s, some t => some (if vs.isEmpty then s else s ++ "," ++ t)
      | _, _ => none
termination_by structural l => l

end

/-- `ToString` of a value. -/
def JsVal.toStr : JsVal → Except Exn String
  | none => .ok "undefined"
  | some v => match v.toStr with
    | some s => .ok s
    | none => .error .typeError

/-- The value has a string form, so that `"" + v` does not throw. -/
def JsVal.hasStr (v : JsVal) : Bool := v.toStr.isOk

/-- White space and line terminators, which `ToNumber` trims. -/
def isSpace (c : Char) : Bool :=
  [0x9, 0xa, 0xb, 0xc, 0xd, 0x20, 0xa0, 0x1680, 0x2028, 0x2029, 0x202f, 0x205f, 0x3000,
    0xfeff].contains c.toNat || (0x2000 ≤ c.toNat && c.toNat ≤ 0x200a)

def trim (cs : List Char) : List Char :=
  ((cs.dropWhile isSpace).reverse.dropWhile isSpace).reverse

/-- The number that decimal digits denote. -/
def natOfDigits (ds : List Char) : ℕ := Nat.ofDigitChars 10 ds 0

/-- A non-empty string of digits, with or without a sign in front. -/
def signedInt : List Char → Option ℤ
  | '-' :: ds => if ds ≠ [] ∧ ds.all Char.isDigit then some (-natOfDigits ds) else none
  | '+' :: ds => if ds ≠ [] ∧ ds.all Char.isDigit then some (natOfDigits ds) else none
  | ds => if ds ≠ [] ∧ ds.all Char.isDigit then some (natOfDigits ds) else none

/-- An unsigned decimal literal. -/
def unsignedDecimal (cs : List Char) : Option ℚ :=
  let ip := cs.takeWhile Char.isDigit
  let (fp, rest) := match cs.dropWhile Char.isDigit with
    | '.' :: r => (r.takeWhile Char.isDigit, r.dropWhile Char.isDigit)
    | r => ([], r)
  let e : Option ℤ := match rest with
    | [] => some 0
    | c :: r => if c = 'e' ∨ c = 'E' then signedInt r else none
  if ip = [] ∧ fp = [] then none
  else e.map fun e => (natOfDigits (ip ++ fp) : ℚ) * 10 ^ (e - (fp.length : ℤ))

def hexDigit? (c : Char) : Option ℕ :=
  if c.isDigit then some (c.toNat - 48)
  else if 'a' ≤ c ∧ c ≤ 'f' then some (c.toNat - 87)
  else if 'A' ≤ c ∧ c ≤ 'F' then some (c.toNat - 55)
  else none

def hexValue (cs : List Char) : Option ℕ :=
  if cs = [] then none
  else cs.foldl (fun n c => n.bind fun n => (hexDigit? c).map fun d => 16 * n + d) (some 0)

/-- The number that digits denote in a base up to 16. -/
def radixValue (base : ℕ) (cs : List Char) : Option ℕ :=
  if cs = [] then none
  else cs.foldl (fun n c => n.bind fun n =>
    ((hexDigit? c).filter (· < base)).map fun d => base * n + d) (some 0)

/-- `ToNumber` of a string.  The string `Infinity` has no exact value. -/
def stringToNumber (s : String) : Number :=
  let q : Option ℚ := match trim s.toList with
    | [] => some 0
    | '0' :: 'x' :: hs => (hexValue hs).map (↑·)
    | '0' :: 'X' :: hs => (hexValue hs).map (↑·)
    | '0' :: 'o' :: os => (radixValue 8 os).map (↑·)
    | '0' :: 'O' :: os => (radixValue 8 os).map (↑·)
    | '0' :: 'b' :: bs => (radixValue 2 bs).map (↑·)
    | '0' :: 'B' :: bs => (radixValue 2 bs).map (↑·)
    | '-' :: cs => (unsignedDecimal cs).map (- ·)
    | '+' :: cs => unsignedDecimal cs
    | cs => unsignedDecimal cs
  match q with
  | some q => .fin q
  | none => .nan

/-- `ToNumber`. -/
def JsVal.toNumber : JsVal → Except Exn Number
  | none => .ok .nan
  | some .null => .ok (.fin 0)
  | some (.bool b) => .ok (.fin (if b then 1 else 0))
  | some (.num d) => .ok (.fin d.value)
  | some (.str s) => .ok (stringToNumber s)
  | v => v.toStr.map stringToNumber

/-- `v == s` for a string `s`. -/
def JsVal.looseEq (v : JsVal) (s : String) : Except Exn Bool :=
  match v with
  | none | some .null => .ok false
  | some (.bool b) => .ok (stringToNumber s = .fin (if b then 1 else 0))
  | some (.num d) => .ok (stringToNumber s = .fin d.value)
  | some (.str t) => .ok (t = s)
  | v => v.toStr.map (· = s)

/-- The operand of a sum of numbers: `NaN` is `none`, and so is the operand of
a concatenation, with `false`. -/
def JsVal.addend : JsVal → Bool × Option Decimal
  | none => (true, none)
  | some .null => (true, some ⟨0, 0⟩)
  | some (.bool b) => (true, some ⟨if b then 1 else 0, 0⟩)
  | some (.num d) => (true, some d)
  | _ => (false, none)

/-- `ToString` of `a + b`, which is a sum or a concatenation. -/
def JsVal.plus (a b : JsVal) : Except Exn String :=
  match a.addend, b.addend with
  | (true, d), (true, e) => .ok <| match d, e with
    | some d, some e => (d.add e).toString
    | _, _ => "NaN"
  | _, _ => do return (← a.toStr) ++ (← b.toStr)

/-- The length of a string in UTF-16 code units. -/
def utf16Length (s : String) : ℕ :=
  (s.toList.map fun c => if c.toNat < 0x10000 then 1 else 2).sum

/-- `v.length`. -/
def Json.length : Json → Except Exn JsVal
  | .null => .error .typeError
  | .str s => .ok (some (.num ⟨utf16Length s, 0⟩))
  | .arr l => .ok (some (.num ⟨l.length, 0⟩))
  | .obj fields => .ok (field "length" fields)
  | _ => .ok undefined

example : stringToNumber " -12.50e1 " = .fin (-125) := by decide +kernel

end SchuleAlsStaat.Js
