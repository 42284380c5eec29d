import SchuleAlsStaat.Js.Value

/-!
# JSON.parse

Two automata read a text from left to right: `lex` turns its characters into
tokens, and `parseTokens` turns the tokens into a value, with a stack of the
arrays and objects that are still open.  The parser reads back the tokens that
a value is written as (`parseTokens_tokens`).
-/

namespace SchuleAlsStaat.Js

/-! ## Tokens -/

inductive Token where
  | lbrace
  | rbrace
  | lbracket
  | rbracket
  | colon
  | comma
  | str (s : String)
  | num (d : Decimal)
  | null
  | bool (b : Bool)
deriving DecidableEq, Repr

/-- `-?(0|[1-9]\d*)(\.\d+)?([eE][+-]?\d+)?`. -/
def jsonNumber (cs : List Char) : Option Decimal :=
  let (neg, cs) := match cs with
    | '-' :: r => (true, r)
    | r => (false, r)
  let int := cs.takeWhile Char.isDigit
  let (hasPoint, frac, rest) := match cs.dropWhile Char.isDigit with
    | '.' :: r => (true, r.takeWhile Char.isDigit, r.dropWhile Char.isDigit)
    | r => (false, [], r)
  let exp : Option ℤ := match rest with
    | [] => some 0
    | c :: r => if c = 'e' ∨ c = 'E' then signedInt r else none
  if int = [] ∨ (int.head? = some '0' ∧ 1 < int.length) ∨ (hasPoint ∧ frac = []) then none
  else exp.map fun e =>
    let n : ℤ := natOfDigits (int ++ frac)
    ⟨if neg then -n else n, e - frac.length⟩

/-- The text of code points and UTF-16 code units.  A surrogate without its
partner has no character and is replaced. -/
def decodeUnits : List ℕ → List Char
  | [] => []
  | u :: units =>
      if 0xd800 ≤ u ∧ u < 0xdc00 then
        match units with
        | l :: rest =>
            if 0xdc00 ≤ l ∧ l < 0xe000 then
              Char.ofNat (0x10000 + (u - 0xd800) * 0x400 + (l - 0xdc00)) :: decodeUnits rest
            else Char.ofNat 0xfffd :: decodeUnits (l :: rest)
        | [] => [Char.ofNat 0xfffd]
      else if 0xdc00 ≤ u ∧ u < 0xe000 then Char.ofNat 0xfffd :: decodeUnits units
      else Char.ofNat u :: decodeUnits units

/-- What the characters read so far belong to.  The parts of a token are in
reverse order. -/
inductive Lex where
  | between
  | number (cs : List Char)
  | word (cs : List Char)
  | string (units : List ℕ)
  | escape (units : List ℕ)
  | unicode (units : List ℕ) (ds : List Char)

namespace Lex

/-- The token that ends before the next character. -/
def flush : Lex → Option (List Token)
  | .between => some []
  | .number cs => (jsonNumber cs.reverse).map fun d => [.num d]
  | .word cs => match String.ofList cs.reverse with
    | "null" => some [.null]
    | "true" => some [.bool true]
    | "false" => some [.bool false]
    | _ => none
  | _ => none

/-- A character outside of a token. -/
def start (c : Char) : Option (List Token × Lex) :=
  match c with
  | '{' => some ([.lbrace], .between)
  | '}' => some ([.rbrace], .between)
  | '[' => some ([.lbracket], .between)
  | ']' => some ([.rbracket], .between)
  | ':' => some ([.colon], .between)
  | ',' => some ([.comma], .between)
  | '"' => some ([], .string [])
  | '-' => some ([], .number [c])
  | ' ' => some ([], .between)
  | '\t' => some ([], .between)
  | '\n' => some ([], .between)
  | '\r' => some ([], .between)
  | c =>
      if c.isDigit then some ([], .number [c])
      else if c.isLower then some ([], .word [c])
      else none

/-- The character that an escape sequence of one letter stands for. -/
def escaped : Char → Option ℕ
  | '"' => some 0x22
  | '\\' => some 0x5c
  | '/' => some 0x2f
  | 'b' => some 0x8
  | 'f' => some 0xc
  | 'n' => some 0xa
  | 'r' => some 0xd
  | 't' => some 0x9
  | _ => none

/-- The tokens that a character completes. -/
def next (s : Lex) (c : Char) : Option (List Token × Lex) :=
  match s with
  | .between => start c
  | .number cs =>
      if c.isDigit ∨ c = '.' ∨ c = 'e' ∨ c = 'E' ∨ c = '+' ∨ c = '-' then
        some ([], .number (c :: cs))
      else s.flush.bind fun done => (start c).map fun p => (done ++ p.1, p.2)
  | .word cs =>
      if c.isLower then some ([], .word (c :: cs))
      else s.flush.bind fun done => (start c).map fun p => (done ++ p.1, p.2)
  | .string units =>
      if c = '"' then some ([.str (String.ofList (decodeUnits units.reverse))], .between)
      else if c = '\\' then some ([], .escape units)
      else if c.toNat < 0x20 then none
      else some ([], .string (c.toNat :: units))
  | .escape units =>
      if c = 'u' then some ([], .unicode units [])
      else (escaped c).map fun u => ([], .string (u :: units))
  | .unicode units ds =>
      if ds.length < 3 then
        if (hexDigit? c).isSome then some ([], .unicode units (c :: ds)) else none
      else (hexValue (c :: ds).reverse).map fun u => ([], .string (u :: units))

end Lex

/-- The tokens of a text, from a state on. -/
def lex (s : Lex) : List Char → Option (List Token)
  | [] => s.flush
  | c :: cs => (s.next c).bind fun p => (lex p.2 cs).map fun tokens => p.1 ++ tokens

/-! ## Values -/

/-- An array or an object that is open, with what it holds already.  In an
object a value for `key` is on its way. -/
inductive Frame where
  | arr (l : List Json)
  | obj (fields : List (String × Json)) (key : String)

/-- What the parser waits for. -/
inductive Parse where
  /-- A value. -/
  | value (stack : List Frame)
  /-- A value or the end of the array. -/
  | element (stack : List Frame)
  /-- A comma or the end of the array. -/
  | afterElement (l : List Json) (stack : List Frame)
  /-- A key or the end of the object. -/
  | member (stack : List Frame)
  | key (fields : List (String × Json)) (stack : List Frame)
  | colon (fields : List (String × Json)) (key : String) (stack : List Frame)
  /-- A comma or the end of the object. -/
  | afterMember (fields : List (String × Json)) (stack : List Frame)
  /-- The end of the text. -/
  | done (v : Json)

namespace Parse

/-- A value is complete. -/
def complete (v : Json) : List Frame → Parse
  | [] => .done v
  | .arr l :: stack => .afterElement (l ++ [v]) stack
  | .obj fields k :: stack => .afterMember (fields ++ [(k, v)]) stack

/-- The first token of a value. -/
def begin (stack : List Frame) : Token → Option Parse
  | .null => some (complete .null stack)
  | .bool b => some (complete (.bool b) stack)
  | .num d => some (complete (.num d) stack)
  | .str s => some (complete (.str s) stack)
  | .lbracket => some (.element stack)
  | .lbrace => some (.member stack)
  | _ => none

def next : Parse → Token → Option Parse
  | .value stack, t => begin stack t
  | .element stack, .rbracket => some (complete (.arr []) stack)
  | .element stack, t => begin (.arr [] :: stack) t
  | .afterElement l stack, .comma => some (.value (.arr l :: stack))
  | .afterElement l stack, .rbracket => some (complete (.arr l) stack)
  | .member stack, .rbrace => some (complete (.obj []) stack)
  | .member stack, .str k => some (.colon [] k stack)
  | .key fields stack, .str k => some (.colon fields k stack)
  | .colon fields k stack, .colon => some (.value (.obj fields k :: stack))
  | .afterMember fields stack, .comma => some (.key fields stack)
  | .afterMember fields stack, .rbrace => some (complete (.obj fields) stack)
  | _, _ => none

def run (s : Parse) : List Token → Option Json
  | [] => match s with
    | .done v => some v
    | _ => none
  | t :: tokens => (s.next t).bind fun s => run s tokens

end Parse

def parseTokens (tokens : List Token) : Option Json := Parse.run (.value []) tokens

/-- `JSON.parse`. -/
def Json.parse (s : String) : Except Exn Json :=
  match (lex .between s.toList).bind parseTokens with
  | some v => .ok v
  | none => .error .syntaxError

/-! ## Reading back a value -/

mutual

/-- The tokens of a value. -/
def Json.tokens : Json → List Token
  | .null => [.null]
  | .bool b => [.bool b]
  | .num d => [.num d]
  | .str s => [.str s]
  | .arr [] => [.lbracket, .rbracket]
  | .arr (v :: l) => .lbracket :: (Json.tokens v ++ Json.tokensArr l)
  | .obj [] => [.lbrace, .rbrace]
  | .obj ((key, v) :: fields) =>
      .lbrace :: .str key :: .colon :: (Json.tokens v ++ Json.tokensObj fields)

/-- The other elements of an array and its end. -/
def Json.tokensArr : List Json → List Token
  | [] => [.rbracket]
  | v :: l => .comma :: (Json.tokens v ++ Json.tokensArr l)

/-- The other members of an object and its end. -/
def Json.tokensObj : List (String × Json) → List Token
  | [] => [.rbrace]
  | (key, v) :: fields => .comma :: .str key :: .colon :: (Json.tokens v ++ Json.tokensObj fields)

end

namespace Parse

/-- After the first token of a value an array element is read like any value. -/
theorem next_element {t : Token} (stack : List Frame) (h : t ≠ .rbracket) :
    next (.element stack) t = next (.value (.arr [] :: stack)) t := by
  cases t <;> first | rfl | exact absurd rfl h

/-- A value does not start with a closing bracket. -/
theorem tokens_eq_cons (v : Json) : ∃ t tokens, v.tokens = t :: tokens ∧ t ≠ .rbracket := by
  cases v with
  | arr l => cases l <;> exact ⟨_, _, rfl, by simp⟩
  | obj fields =>
      cases fields with
      | nil => exact ⟨_, _, rfl, by simp⟩
      | cons f fields => exact ⟨_, _, rfl, by simp⟩
  | _ => exact ⟨_, _, rfl, by simp⟩

/-- So is the first element of an array. -/
theorem run_element (v : Json) (stack : List Frame) (rest : List Token) :
    run (.element stack) (v.tokens ++ rest) = run (.value (.arr [] :: stack)) (v.tokens ++ rest) := by
  obtain ⟨t, tokens, ht, hne⟩ := tokens_eq_cons v
  rw [ht, List.cons_append, run, run, next_element stack hne]

mutual

/-- The tokens of a value complete it. -/
theorem run_tokens : ∀ (v : Json) (stack : List Frame) (rest : List Token),
    run (.value stack) (v.tokens ++ rest) = run (complete v stack) rest
  | .null, stack, rest => rfl
  | .bool b, stack, rest => rfl
  | .num d, stack, rest => rfl
  | .str s, stack, rest => rfl
  | .arr [], stack, rest => rfl
  | .arr (v :: l), stack, rest => by
      have first := run_tokens v (.arr [] :: stack) (Json.tokensArr l ++ rest)
      have others := run_tokensArr l [v] stack rest
      rw [Json.tokens, List.cons_append, List.append_assoc]
      show run (.element stack) _ = _
      rw [run_element, first]
      exact others
  | .obj [], stack, rest => rfl
  | .obj ((k, v) :: fields), stack, rest => by
      have first := run_tokens v (.obj [] k :: stack) (Json.tokensObj fields ++ rest)
      have others := run_tokensObj fields [(k, v)] stack rest
      rw [Json.tokens, List.cons_append, List.cons_append, List.cons_append, List.append_assoc]
      exact first.trans others

theorem run_tokensArr : ∀ (l l' : List Json) (stack : List Frame) (rest : List Token),
    run (.afterElement l' stack) (Json.tokensArr l ++ rest) =
      run (complete (.arr (l' ++ l)) stack) rest
  | [], l', stack, rest => by
      rw [List.append_nil]
      rfl
  | v :: l, l', stack, rest => by
      have first := run_tokens v (.arr l' :: stack) (Json.tokensArr l ++ rest)
      have others := run_tokensArr l (l' ++ [v]) stack rest
      rw [Json.tokensArr, List.cons_append, List.append_assoc]
      rw [List.append_assoc] at others
      exact first.trans others

theorem run_tokensObj : ∀ (fields fields' : List (String × Json)) (stack : List Frame)
    (rest : List Token),
    run (.afterMember fields' stack) (Json.tokensObj fields ++ rest) =
      run (complete (.obj (fields' ++ fields)) stack) rest
  | [], fields', stack, rest => by
      rw [List.append_nil]
      rfl
  | (k, v) :: fields, fields', stack, rest => by
      have first := run_tokens v (.obj fields' k :: stack) (Json.tokensObj fields ++ rest)
      have others := run_tokensObj fields (fields' ++ [(k, v)]) stack rest
      rw [Json.tokensObj, List.cons_append, List.cons_append, List.cons_append, List.append_assoc]
      rw [List.append_assoc] at others
      exact first.trans others

end

end Parse

/-- The parser reads back every value. -/
theorem parseTokens_tokens (v : Json) : parseTokens v.tokens = some v := by
  have h := Parse.run_tokens v [] []
  rw [List.append_nil] at h
  exact h

/-- A text is parsed as the value whose tokens it has. -/
theorem Json.parse_of_lex {s : String} {v : Json} (h : lex .between s.toList = some v.tokens) :
    Json.parse s = .ok v := by
  have hp : (lex .between s.toList).bind parseTokens = some v := by
    rw [h, Option.bind_some, parseTokens_tokens]
  rw [Json.parse, hp]

example : Json.parse "[\x7b\"a\" : -1.5e2\x7d, \"\\u0041\", []]" =
    .ok (.arr [.obj [("a", .num ⟨-15, 1⟩)], .str "A", .arr []]) :=
  Json.parse_of_lex (by decide +kernel)

end SchuleAlsStaat.Js
