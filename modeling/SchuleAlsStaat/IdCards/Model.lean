import Mathlib.Algebra.Order.Floor.Div
import SchuleAlsStaat.Js.Loop

/-!
# The sheets of identity cards

`render_students` lays out the cards of the students in rows and puts as many rows on a
page as fit.  Its loop over the pages has no bound.  It returns in the middle of a page,
at the first index behind the end of the list.

The meaning of the code is the list of its acts on the document, and `document` is what
jsPDF makes of them.  `LaidOut` says what the sheets should be: one card for every
student, all at different places, and no page without a card.

Lengths are exact rationals.  What a card is drawn with (the QR code, jsPDF, `Date`) is
a parameter, since only the page knows the libraries.  Of jsPDF the code relies on how its
calls change what the pages show.
-/

namespace SchuleAlsStaat.IdCards

open Js
open Js.JS (lift act)

/-! ## Measures -/

def PAGE_W : ℚ := 210
def PAGE_H : ℚ := 297

def CARD_W : ℚ := 70
def CARD_H : ℚ := 50.8
def CARD_MARGIN_X : ℚ := 0
def CARD_MARGIN_Y : ℚ := 0
def PAGE_OFFSET_X : ℚ := 0
def PAGE_OFFSET_Y : ℚ := 23

def QRCODE_OFFSET_X : ℚ := 4
def QRCODE_OFFSET_Y : ℚ := 7
def QRCODE_W : ℚ := 41
def QRCODE_H : ℚ := 41

def PASSPIC_OFFSET_X : ℚ := 43
def PASSPIC_OFFSET_Y : ℚ := 7
def PASSPIC_W : ℚ := 23
def PASSPIC_H : ℚ := 17.25

def TEXT_OFFSET_X : ℚ := 51
def TEXT_OFFSET_Y : ℚ := 28.5
def TEXT_FONTSIZE : ℚ := 6
def TEXT_LINEHEIGHT : ℚ := 3

def TITLE_OFFSET_X : ℚ := CARD_W / 2
def TITLE_OFFSET_Y : ℚ := 5
def TITLE_FONTSIZE : ℚ := 13
def TITLE_FONTSIZE_TOOLONG : ℚ := 8

def QRID_OFFSET_X : ℚ := QRCODE_OFFSET_X + QRCODE_W / 2
def QRID_OFFSET_Y : ℚ := 49
def QRID_FONTSIZE : ℚ := 10

def LOGO_OFFSET_X : ℚ := 43.5
def LOGO_OFFSET_Y : ℚ := 26
def LOGO_W : ℚ := 6
def LOGO_H : ℚ := 6

def WUNDERLAND_OFFSET_X : ℚ := 43
def WUNDERLAND_OFFSET_Y : ℚ := 35
def WUNDERLAND_W : ℚ := 22.96
def WUNDERLAND_H : ℚ := 8.568

def AMOUNT_X : ℕ :=
  ⌊(PAGE_W - PAGE_OFFSET_X + CARD_MARGIN_X) / (CARD_W + CARD_MARGIN_X)⌋.toNat

def AMOUNT_Y : ℕ :=
  ⌊(PAGE_H - PAGE_OFFSET_Y + CARD_MARGIN_Y) / (CARD_H + CARD_MARGIN_Y)⌋.toNat

theorem AMOUNT_X_pos : 0 < AMOUNT_X := by decide +kernel

theorem AMOUNT_Y_pos : 0 < AMOUNT_Y := by decide +kernel

theorem AMOUNT_pos : 0 < AMOUNT_X * AMOUNT_Y := Nat.mul_pos AMOUNT_X_pos AMOUNT_Y_pos

/-- The left edge of the cards of column `x`. -/
def column (x : ℕ) : ℚ := PAGE_OFFSET_X + (CARD_MARGIN_X + CARD_W) * x

/-- The upper edge of the cards of row `y`. -/
def row (y : ℕ) : ℚ := PAGE_OFFSET_Y + (CARD_MARGIN_Y + CARD_H) * y

theorem column_injective : Function.Injective column := by
  intro x x' h
  simpa [column, CARD_MARGIN_X, CARD_W] using h

theorem row_injective : Function.Injective row := by
  intro y y' h
  norm_num [row, CARD_MARGIN_Y, CARD_H] at h
  exact h

/-! ## Documents -/

/-- What a page of the document shows. -/
inductive Draw where
  | addImage (imageData : Option String) (x y w h : ℚ)
  | text (x y : ℚ) (txt : String)
  | centerText (x y : ℚ) (txt : JsVal)

/-- What is seen of a document: what its pages show, and the index of the current one. -/
structure Pdf where
  pages : List (List Draw)
  current : ℕ

namespace Pdf

/-- A new document has a page. -/
def new : Pdf := ⟨[[]], 0⟩

def addPage (pdf : Pdf) : Pdf := ⟨pdf.pages ++ [[]], pdf.pages.length⟩

/-- Pages are counted from 1. -/
def setPage (pdf : Pdf) (page : ℕ) : Pdf :=
  if 1 ≤ page ∧ page ≤ pdf.pages.length then { pdf with current := page - 1 } else pdf

def draw (pdf : Pdf) (d : Draw) : Pdf :=
  { pdf with pages := pdf.pages.modify pdf.current (· ++ [d]) }

end Pdf

/-- The library jsPDF. -/
structure JsPdf where
  Doc : Type
  /-- `new jsPDF()`. -/
  new : Doc
  addPage : Doc → Doc
  setPage : Doc → ℕ → Doc
  setFontSize : Doc → ℚ → Doc
  setFont : Doc → String → String → Doc
  draw : Doc → Draw → Doc
  view : Doc → Pdf
  view_new : view new = .new
  view_addPage : ∀ pdf, view (addPage pdf) = (view pdf).addPage
  view_setPage : ∀ pdf page, view (setPage pdf page) = (view pdf).setPage page
  view_setFontSize : ∀ pdf size, view (setFontSize pdf size) = view pdf
  view_setFont : ∀ pdf name style, view (setFont pdf name style) = view pdf
  view_draw : ∀ pdf d, view (draw pdf d) = (view pdf).draw d

/-! ## What a card says -/

structure LocalDate where
  date : ℤ
  /-- Counted from 0. -/
  month : ℤ
  fullYear : ℤ

/-- The libraries, and the pictures of the page.  A picture is `none` until it has
been loaded. -/
structure Browser extends JsPdf where
  /-- `qr.toDataURL` of a value. -/
  toDataURL : JsVal → Except Exn String
  /-- jsPDF takes the image. -/
  addImage : Option String → Except Exn Unit
  /-- jsPDF measures the text and takes it. -/
  centerText : JsVal → Except Exn Unit
  /-- `new Date`.  `none` stands for an invalid date. -/
  newDate : JsVal → Except Exn (Option LocalDate)
  toLowerCase : String → String
  toUpperCase : String → String
  saeulogo : Option String
  wunderland : Option String
  passpic_visitors : Option String
  passpic_legalentity : Option String
  passpic_replacement : Option String

variable (B : Browser)

/-- `v.toLowerCase()`, a method that only strings have. -/
def Browser.lower : JsVal → Except Exn String
  | some (.str s) => .ok (B.toLowerCase s)
  | _ => .error .typeError

def assert (key : String) (object : Json) : Except Exn Unit := do
  if !(← object.hasProp key) then throw (.error (key ++ " fehlt!"))

def date_readable (birth : JsVal) : Except Exn String := do
  match ← B.newDate birth with
  | none => return "NaN.NaN.NaN"
  | some bdate => return s!"{bdate.date}.{bdate.month + 1}.{bdate.fullYear}"

def country_readable (countrycode : String) : String :=
  if countrycode = "de" then "Deutschland"
  else if countrycode = "fr" then "Frankreich"
  else if countrycode = "tr" then "Türkei"
  else if countrycode = "gb" then "Großbritannien"
  else if countrycode = "it" then "Italien"
  else "Kein Land"

/-- Title and lines of additional information. -/
structure Readable where
  title : JsVal
  lines : List String

def student_readable (student : Json) : Except Exn Readable := do
  -- the source asks for `!("type") in student`, where `!("type")` is `false`
  if ← student.hasProp "false" then throw (.error "type is missing")
  let cl ← B.lower (← student.prop "type")
  if cl = "replacement" then
    return ⟨some (.str "Name:                                      "),
      ["Ersatzkarte /", "Sonderkarte"]⟩
  else if cl = "legalentity" then
    assert "special_name" student
    return ⟨← student.prop "special_name", ["juristische", "Person"]⟩
  else if cl = "visitor" then
    return ⟨some (.str "Besucherausweis"), ["Herzlich", "Willkommen in..."]⟩
  else
    assert "firstname" student
    assert "lastname" student
    let title := (← (← student.prop "firstname").toStr) ++ " " ++
      (← (← student.prop "lastname").toStr)
    let lines ←
      if cl = "teacher" then pure ["Lehrer / Lehrerin"]
      else if cl = "other" then pure ["Sonderausweis"]
      else do
        let birth ←
          if ← student.hasProp "birth" then
            pure ["* " ++ (← date_readable B (← student.prop "birth"))]
          else pure []
        pure (("Klasse " ++ B.toUpperCase cl) :: birth)
    let country ← student.prop "country"
    let countrycode ← if country.truthy then B.lower country else pure ""
    return ⟨some (.str title), lines ++ [country_readable countrycode]⟩

/-! ## Drawing a card -/

/-- Where a card is. -/
structure Place where
  page : ℕ
  xpos : ℚ
  ypos : ℚ

/-- The arguments of a call of `render_student_card`. -/
structure Call extends Place where
  student : Json

inductive Act where
  /-- `render_student_card` is called. -/
  | call (c : Call)
  | addPage
  | setFontSize (size : ℚ)
  | setFont (name style : String)
  | draw (d : Draw)
  /-- A passport picture is asked for, to be drawn on the card there. -/
  | webcamserv_get (picname : String) (p : Place)

/-- `pdf.addImage` with a JPEG. -/
def addImage (imageData : Option String) (x y w h : ℚ) : JS Act Unit := do
  lift (B.addImage imageData)
  act (.draw (.addImage imageData x y w h))

def centerText (x y : ℚ) (txt : JsVal) : JS Act Unit := do
  lift (B.centerText txt)
  act (.draw (.centerText x y txt))

/-- `student.type == type`. -/
def hasType (student : Json) (type : String) : Except Exn Bool := do
  (← student.prop "type").looseEq type

def render_qrcode (student : Json) (xpos ypos : ℚ) : JS Act Unit := do
  let qrdat ← lift (do B.toDataURL (← student.prop "qrid"))
  addImage B (some qrdat) (xpos + QRCODE_OFFSET_X) (ypos + QRCODE_OFFSET_Y) QRCODE_W QRCODE_H

def addPasspic (xpos ypos : ℚ) (imageData : Option String) : JS Act Unit :=
  addImage B imageData (xpos + PASSPIC_OFFSET_X) (ypos + PASSPIC_OFFSET_Y) PASSPIC_W PASSPIC_H

/-- The passport photo.  That of a student is asked for and drawn when it arrives. -/
def render_passpic (student : Json) (page : ℕ) (xpos ypos : ℚ) : JS Act Unit := do
  if ← lift (student.hasProp "picname") then
    let picname ← lift (do (← student.prop "picname").toStr)
    act (.webcamserv_get picname ⟨page, xpos, ypos⟩)
  else if ← lift (hasType student "visitor") then
    addPasspic B xpos ypos B.passpic_visitors
  else if ← lift (hasType student "replacement") then
    addPasspic B xpos ypos B.passpic_replacement
  else pure ()

def render_legalentity (student : Json) (xpos ypos : ℚ) : JS Act Unit := do
  if ← lift (hasType student "legalentity") then
    addPasspic B xpos ypos B.passpic_legalentity
  else pure ()

/-- `title.length > 25`. -/
def tooLong : JsVal → Except Exn Bool
  | none => .error .typeError
  | some title => do return (Number.fin 25).lt (← (← title.length).toNumber)

def setTitleFontSize (title : JsVal) : JS Act Unit := do
  act (.setFontSize TITLE_FONTSIZE)
  if ← lift (tooLong title) then act (.setFontSize TITLE_FONTSIZE_TOOLONG)
  else pure ()

def render_title (title : JsVal) (xpos ypos : ℚ) : JS Act Unit := do
  setTitleFontSize title
  act (.setFont "helvetica" "bold")
  centerText B (xpos + TITLE_OFFSET_X) (ypos + TITLE_OFFSET_Y) title

def render_text (lines : List String) (xpos ypos : ℚ) : JS Act Unit := do
  act (.setFontSize TEXT_FONTSIZE)
  act (.setFont "helvetica" "normal")
  JS.forEach lines.zipIdx fun line =>
    .draw (.text (xpos + TEXT_OFFSET_X) (ypos + TEXT_OFFSET_Y + TEXT_LINEHEIGHT * line.2) line.1)

def render_qrid (student : Json) (xpos ypos : ℚ) : JS Act Unit := do
  lift (assert "qrid" student)
  act (.setFontSize QRID_FONTSIZE)
  let qrid ← lift (student.prop "qrid")
  centerText B (xpos + QRID_OFFSET_X) (ypos + QRID_OFFSET_Y) qrid

def render_logos (xpos ypos : ℚ) : JS Act Unit := do
  addImage B B.saeulogo (xpos + LOGO_OFFSET_X) (ypos + LOGO_OFFSET_Y) LOGO_W LOGO_H
  addImage B B.wunderland (xpos + WUNDERLAND_OFFSET_X) (ypos + WUNDERLAND_OFFSET_Y)
    WUNDERLAND_W WUNDERLAND_H

def render_student_card (student : Json) (page : ℕ) (xpos ypos : ℚ) : JS Act Unit := do
  render_qrcode B student xpos ypos
  render_passpic B student page xpos ypos
  render_legalentity B student xpos ypos
  let readable ← lift (student_readable B student)
  render_title B readable.title xpos ypos
  render_text readable.lines xpos ypos
  render_qrid B student xpos ypos
  render_logos B xpos ypos

/-! ## Laying out the cards -/

/-- One iteration of the innermost loop. -/
def render_slot (list : List Json) (page y x : ℕ) : JS Act Bool :=
  let index := AMOUNT_X * AMOUNT_Y * page + AMOUNT_X * y + x
  match list[index]? with
  | none => pure true
  | some student => do
      act (.call ⟨⟨page, column x, row y⟩, student⟩)
      render_student_card B student page (column x) (row y)
      pure false

/-- One iteration of the page loop. -/
def render_page (list : List Json) (page : ℕ) : JS Act Bool := do
  let returned ← JS.forReturn (List.range AMOUNT_Y) fun y =>
    JS.forReturn (List.range AMOUNT_X) fun x => render_slot B list page y x
  if returned then pure true
  else do
    act .addPage
    pure false

/-- The page loop, on at most so many iterations. -/
def render_students (pages : ℕ) (list : List Json) : JS Act Bool :=
  JS.forReturn (List.range pages) (render_page B list)

/-- `render_students` returns, and has performed these acts. -/
def Returns (list : List Json) (acts : List Act) : Prop :=
  ∃ n, ∀ pages, n ≤ pages → render_students B pages list = ⟨acts, .ok true⟩

/-! ## What jsPDF makes of the acts -/

/-- The view of a document after an act. -/
def Pdf.step (pdf : Pdf) : Act → Pdf
  | .addPage => pdf.addPage
  | .draw d => pdf.draw d
  | _ => pdf

namespace Browser

def step (pdf : B.Doc) : Act → B.Doc
  | .addPage => B.addPage pdf
  | .setFontSize size => B.setFontSize pdf size
  | .setFont name style => B.setFont pdf name style
  | .draw d => B.draw pdf d
  | .call _ | .webcamserv_get _ _ => pdf

/-- A passport picture has been loaded. -/
def onPasspic (pdf : B.Doc) (p : Place) (jpeg : String) : B.Doc :=
  let pdf := B.setPage pdf (p.page + 1)
  match B.addImage (some jpeg) with
  | .error _ => pdf
  | .ok _ => B.draw pdf (.addImage (some jpeg) (p.xpos + PASSPIC_OFFSET_X)
      (p.ypos + PASSPIC_OFFSET_Y) PASSPIC_W PASSPIC_H)

end Browser

def calls (acts : List Act) : List Call :=
  acts.filterMap fun a => match a with
    | .call c => some c
    | _ => none

/-- The passport pictures that are asked for. -/
def requests (acts : List Act) : List Place :=
  acts.filterMap fun a => match a with
    | .webcamserv_get _ p => some p
    | _ => none

/-- The document after the acts, when these passport pictures have arrived. -/
def document (acts : List Act) (arrived : List (Place × String)) : B.Doc :=
  arrived.foldl (fun pdf a => B.onPasspic pdf a.1 a.2) (acts.foldl B.step B.new)

/-- What the pages of this document show. -/
def shownPages (acts : List Act) (arrived : List (Place × String)) : List (List Draw) :=
  (B.view (document B acts arrived)).pages

/-- The cards are laid out on sheets as they should be. -/
structure Sheets (list : List Json) (acts : List Act) : Prop where
  /-- One call for every student. -/
  once : (calls acts).map Call.student = list
  apart : ((calls acts).map Call.toPlace).Nodup
  inGrid : ∀ c ∈ calls acts, ∃ x < AMOUNT_X, ∃ y < AMOUNT_Y, c.xpos = column x ∧ c.ypos = row y
  /-- The pages that are needed, also after passport pictures have arrived in any order. -/
  pages : ∀ arrived : List (Place × String), (∀ a ∈ arrived, a.1 ∈ requests acts) →
    (shownPages B acts arrived).length = list.length ⌈/⌉ (AMOUNT_X * AMOUNT_Y)
  noBlank : ∀ arrived : List (Place × String), (∀ a ∈ arrived, a.1 ∈ requests acts) →
    [] ∉ shownPages B acts arrived

def LaidOut (list : List Json) : Prop := ∃ acts, Returns B list acts ∧ Sheets B list acts

/-- The card of the student can be drawn. -/
def Renderable (student : Json) : Prop :=
  (render_student_card B student 0 0 0).result = .ok ()

end SchuleAlsStaat.IdCards
