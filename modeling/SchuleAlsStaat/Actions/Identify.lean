import Mathlib.Data.List.Forall2
import SchuleAlsStaat.Actions.Students

/-!
# What student_identify reveals

`student_identify` needs neither a certificate nor a password.  It hands the
payload to `Student.find` as the query, with four of its properties turned into
regular expressions, and answers the public fields of the record if there is
exactly one.  So the answer tells whether records satisfy the query, whatever
fields the query names.
-/

namespace SchuleAlsStaat

open Js (Json JsVal)

/-! ## Queries -/

/-- The operators that join queries. -/
def logicalOperators : List String := ["$or", "$and", "$nor"]

/-- The field that a path leads into. -/
def fieldOf (path : String) : String := String.ofList (path.toList.takeWhile (· ≠ '.'))

mutual

/-- The fields that the condition of a key names.  Those of a joined query are the
fields of its parts, where of equal keys the last one counts. -/
def namedFields (key : String) : Json → List String
  | .arr l => if key ∈ logicalOperators then namedFieldsArr l else [fieldOf key]
  | _ => if key ∈ logicalOperators then [] else [fieldOf key]

def namedFieldsArr : List Json → List String
  | [] => []
  | .obj fields :: l => namedFieldsObj fields ++ namedFieldsArr l
  | _ :: l => namedFieldsArr l

def namedFieldsObj : List (String × Json) → List String
  | [] => []
  | (key, cond) :: fields =>
      (if key ∈ fields.map Prod.fst then [] else namedFields key cond) ++ namedFieldsObj fields

end

/-- The records agree on what a condition on the field can read.  The operators with
code or an expression of their own read the whole record, and other names are none of
the schema. -/
def SameField (st st' : Student) : String → Prop
  | "_id" => st._id = st'._id
  | "special_name" => st.special_name = st'.special_name
  | "firstname" => st.firstname = st'.firstname
  | "lastname" => st.lastname = st'.lastname
  | "picname" => st.picname = st'.picname
  | "country" => st.country = st'.country
  | "birth" => st.birth = st'.birth
  | "type" => st.type = st'.type
  | "qrid" => st.qrid = st'.qrid
  | "appear" => st.appear = st'.appear
  | "pwdhash" => st.pwdhash = st'.pwdhash
  | "pwdsalt" => st.pwdsalt = st'.pwdsalt
  | "$where" | "$expr" | "$jsonSchema" => st = st'
  | _ => True

/-- How the database matches records with queries. -/
structure Matcher where
  /-- Mongoose can cast the query. -/
  casts : JsVal → List (String × String) → Bool
  /-- The record satisfies the condition of one key. -/
  holds : String → Json → Student → Bool
  /-- The property of the record matches a quoted expression from start to end,
  without regard to case. -/
  matchesPattern : String → String → Student → Bool
  /-- A condition reads the fields that it names. -/
  holds_congr : ∀ {key cond st st'}, (∀ name ∈ namedFields key cond, SameField st st' name) →
    holds key cond st = holds key cond st'
  /-- An expression reads the property that it stands for. -/
  matchesPattern_congr : ∀ {key quoted st st'}, SameField st st' (fieldOf key) →
    matchesPattern key quoted st = matchesPattern key quoted st'

/-- The keys of a query with their conditions.  Of equal keys the last one
counts. -/
def queryFields : JsVal → List (String × Json)
  | some (.obj fields) => fields.filterMap fun f => (Json.field f.1 fields).map (f.1, ·)
  | _ => []

namespace Matcher

variable (M : Matcher)

/-- The record satisfies the condition of every key of the query. -/
def satisfies (properties : JsVal) (patterns : List (String × String)) (st : Student) : Bool :=
  (queryFields properties).all fun (key, cond) => match patterns.lookup key with
    | some quoted => M.matchesPattern key quoted st
    | none => M.holds key cond st

/-- `Student.find`. -/
def find (S : Students) (properties : JsVal) (patterns : List (String × String)) :
    Option (List Student) :=
  if M.casts properties patterns then some (S.filter (M.satisfies properties patterns)) else none

/-- An act with the reply to a search for students and its callback. -/
def serve (S : Students) : Act → List Act
  | .query client (.students properties patterns limit cb) =>
      match M.find S properties patterns with
      | some list => (onStudents client cb list).acts
      | none => [.answer client (.dbError (Query.students properties patterns limit cb).component)]
  | a => [a]

end Matcher

/-- The fields that are not public, and the operators that read them. -/
def privateNames : List String :=
  ["pwdhash", "pwdsalt", "appear", "$where", "$expr", "$jsonSchema"]

variable {E : Ext} {M : Matcher} {client : Client} {payload : JsVal} {S S' : Students}

/-- The private field is empty. -/
def lacks (name : String) (st : Student) : Bool :=
  match name with
  | "pwdhash" => st.pwdhash.isNone
  | "pwdsalt" => st.pwdsalt.isNone
  | "appear" => st.appear.isEmpty
  | _ => st.pwdhash.isNone

theorem lacks_congr {name : String} (hname : name ∈ privateNames) {st st' : Student}
    (h : SameField st st' name) : lacks name st = lacks name st' := by
  simp only [privateNames, List.mem_cons, List.not_mem_nil, or_false] at hname
  rcases hname with rfl | rfl | rfl | rfl | rfl | rfl
  · exact congrArg Option.isNone h
  · exact congrArg Option.isNone h
  · exact congrArg List.isEmpty h
  · exact congrArg (lacks "$where") h
  · exact congrArg (lacks "$expr") h
  · exact congrArg (lacks "$jsonSchema") h

/-- Matching in which the conditions that name a private field ask for it to be
empty. -/
def Matcher.asks (name : String) (hname : name ∈ privateNames) : Matcher where
  casts _ _ := true
  holds key cond st := !(namedFields key cond).contains name || lacks name st
  matchesPattern _ _ _ := true
  holds_congr {key cond st st'} h := by
    by_cases hmem : name ∈ namedFields key cond
    · rw [lacks_congr hname (h name hmem)]
    · simp [hmem]
  matchesPattern_congr _ := rfl

section Asks

variable {name : String} {hname : name ∈ privateNames} {patterns : List (String × String)}

end Asks

section Sample

/-- A property of a record. -/
def Student.property (st : Student) : String → Option String
  | "qrid" => st.qrid.toOption
  | "firstname" => st.firstname
  | "lastname" => st.lastname
  | "type" => st.type
  | "pwdhash" => st.pwdhash
  | _ => none

theorem Student.property_congr {st st' : Student} {key : String}
    (h : SameField st st' (fieldOf key)) : st.property key = st'.property key := by
  unfold property
  split
  · exact congrArg Text.toOption h
  · exact h
  · exact h
  · exact h
  · exact h
  · rfl

/-- Matching for runs on fixed inputs: a condition is a string that the property
is compared with. -/
def Matcher.simple : Matcher where
  casts _ _ := true
  holds key cond st := match cond with
    | .str s => key ∉ logicalOperators && st.property key = some s
    | _ => false
  matchesPattern key quoted st := st.property key = some quoted
  holds_congr {key cond st st'} h := by
    cases cond with
    | str s =>
        by_cases hkey : key ∈ logicalOperators
        · simp [hkey]
        · have hfields : namedFields key (.str s) = [fieldOf key] := if_neg hkey
          have hsame : SameField st st' (fieldOf key) := h _ (by rw [hfields]; simp)
          simp only [Student.property_congr hsame]
    | _ => rfl
  matchesPattern_congr h := by rw [Student.property_congr h]

end Sample

end SchuleAlsStaat
