import SchuleAlsStaat.IdCards.Card
import SchuleAlsStaat.Lib.Pages

/-!
# The cards on their sheets

The three loops visit the students in the order of the list, page by page.  The card of
index `i` is at `place i`.  When every card can be drawn, `layout` is all that
`render_students` does.

A page that is full is followed by a new one before the code looks whether there is
another student.  So the document ends with a blank page when the last card fills a page
(`cards_laid_out_iff`).
-/

namespace SchuleAlsStaat.IdCards

open Js
open Js.JS (act)

variable {B : Browser}

/-! ## Places -/

/-- Where the card of index `i` is. -/
def place (i : ℕ) : Place :=
  let k := i % (AMOUNT_X * AMOUNT_Y)
  ⟨i / (AMOUNT_X * AMOUNT_Y), column (k % AMOUNT_X), row (k / AMOUNT_X)⟩

theorem place_injective : Function.Injective place := by
  intro i j h
  obtain ⟨hpage, hx, hy⟩ := Place.mk.inj h
  have hmod : i % (AMOUNT_X * AMOUNT_Y) = j % (AMOUNT_X * AMOUNT_Y) := by
    rw [← Nat.div_add_mod (i % _) AMOUNT_X, ← Nat.div_add_mod (j % _) AMOUNT_X,
      column_injective hx, row_injective hy]
  rw [← Nat.div_add_mod i (AMOUNT_X * AMOUNT_Y), ← Nat.div_add_mod j (AMOUNT_X * AMOUNT_Y),
    hpage, hmod]

theorem place_inGrid (i : ℕ) : ∃ x < AMOUNT_X, ∃ y < AMOUNT_Y,
    (place i).xpos = column x ∧ (place i).ypos = row y := by
  have hk : i % (AMOUNT_X * AMOUNT_Y) < AMOUNT_X * AMOUNT_Y := Nat.mod_lt i AMOUNT_pos
  exact ⟨_, Nat.mod_lt _ AMOUNT_X_pos, _, Nat.div_lt_of_lt_mul hk, rfl, rfl⟩

variable (B)

/-- What the loops do with the student of index `i`. -/
def render_card (student : Json) (i : ℕ) : JS Act Unit := do
  act (.call ⟨place i, student⟩)
  render_student_card B student (place i).page (place i).xpos (place i).ypos

theorem render_card_acts (student : Json) (i : ℕ) :
    (render_card B student i).acts = .call ⟨place i, student⟩ ::
      (render_student_card B student (place i).page (place i).xpos (place i).ypos).acts :=
  JS.act_bind_acts ..

theorem calls_render_card (student : Json) (i : ℕ) :
    calls (render_card B student i).acts = [⟨place i, student⟩] := by
  have hcard := calls_eq_nil ((OnCard.render_student_card B student).acts (place i))
  rw [calls] at hcard ⊢
  rw [render_card_acts, List.filterMap_cons, hcard]

variable {B}

theorem render_slot_eq (list : List Json) (page : ℕ) {k : ℕ} (hk : k < AMOUNT_X * AMOUNT_Y) :
    render_slot B list page (k / AMOUNT_X) (k % AMOUNT_X) =
      JS.visit list (render_card B) (AMOUNT_X * AMOUNT_Y * page + k) := by
  have hindex : AMOUNT_X * AMOUNT_Y * page + AMOUNT_X * (k / AMOUNT_X) + k % AMOUNT_X =
      AMOUNT_X * AMOUNT_Y * page + k := by
    rw [Nat.add_assoc, Nat.div_add_mod]
  obtain ⟨hdiv, hmod⟩ := (Nat.div_mod_unique AMOUNT_pos).mpr
    ⟨Nat.add_comm k (AMOUNT_X * AMOUNT_Y * page), hk⟩
  have hplace : place (AMOUNT_X * AMOUNT_Y * page + k) =
      ⟨page, column (k % AMOUNT_X), row (k / AMOUNT_X)⟩ := by
    rw [place, hdiv, hmod]
  simp only [render_slot, JS.visit, render_card, hindex, hplace]
  cases list[AMOUNT_X * AMOUNT_Y * page + k]? with
  | none => rfl
  | some student => exact (JS.bind_assoc ..).symm

/-- The two inner loops visit the students of a page. -/
theorem render_slots_eq (list : List Json) (page : ℕ) :
    (JS.forReturn (List.range AMOUNT_Y) fun y =>
      JS.forReturn (List.range AMOUNT_X) fun x => render_slot B list page y x) =
    JS.forReturn (List.range' (AMOUNT_X * AMOUNT_Y * page) (AMOUNT_X * AMOUNT_Y))
      (JS.visit list (render_card B)) := by
  rw [JS.forReturn_nested AMOUNT_X_pos, Nat.mul_comm AMOUNT_Y AMOUNT_X, List.range'_eq_map_range,
    JS.forReturn_map]
  exact JS.forReturn_congr fun k hk => render_slot_eq list page (List.mem_range.mp hk)

variable (B) in
/-- The acts of the cards of a page. -/
def pageActs (list : List Json) (page : ℕ) : List Act :=
  (Pages.page (AMOUNT_X * AMOUNT_Y) list.zipIdx page).flatMap fun p => (render_card B p.1 p.2).acts

section Run

variable {list : List Json} (hr : ∀ student ∈ list, Renderable B student)
include hr

theorem result_render_card : ∀ student ∈ list, ∀ i, (render_card B student i).result = .ok () := by
  intro student hmem i
  exact (JS.act_bind_result ..).trans ((hr student hmem).result (place i))

theorem render_slots_result {page : ℕ} (hp : AMOUNT_X * AMOUNT_Y * page ≤ list.length) :
    (JS.forReturn (List.range AMOUNT_Y) fun y =>
      JS.forReturn (List.range AMOUNT_X) fun x => render_slot B list page y x) =
    ⟨pageActs B list page,
      .ok (decide (list.length < AMOUNT_X * AMOUNT_Y * page + AMOUNT_X * AMOUNT_Y))⟩ := by
  rw [render_slots_eq, JS.forReturn_visit (result_render_card hr) _ hp]
  rfl

/-- A page that is full is followed by another one. -/
theorem render_page_full {page : ℕ} (hp : page < list.length / (AMOUNT_X * AMOUNT_Y)) :
    render_page B list page = ⟨pageActs B list page ++ [.addPage], .ok false⟩ := by
  have hfull : AMOUNT_X * AMOUNT_Y * page + AMOUNT_X * AMOUNT_Y ≤ list.length := by
    rw [← Nat.mul_succ]
    exact (Nat.mul_le_mul_left _ hp).trans (Nat.mul_div_le ..)
  rw [render_page, render_slots_result hr ((Nat.le_add_right ..).trans hfull),
    decide_eq_false hfull.not_gt]
  rfl

theorem render_page_last {page : ℕ} (hp : page = list.length / (AMOUNT_X * AMOUNT_Y)) :
    render_page B list page = ⟨pageActs B list page, .ok true⟩ := by
  have hle : AMOUNT_X * AMOUNT_Y * page ≤ list.length := hp ▸ Nat.mul_div_le ..
  have hlast : list.length < AMOUNT_X * AMOUNT_Y * page + AMOUNT_X * AMOUNT_Y := by
    rw [← Nat.mul_succ, hp]
    exact Nat.lt_mul_div_succ _ AMOUNT_pos
  rw [render_page, render_slots_result hr hle, decide_eq_true hlast]
  show (⟨pageActs B list page ++ [], .ok true⟩ : JS Act Bool) = _
  rw [List.append_nil]

/-- The page loop from a page on, with `q` full pages ahead of it. -/
theorem render_pages (q page rest : ℕ) (h : page + q = list.length / (AMOUNT_X * AMOUNT_Y)) :
    JS.forReturn (List.range' page (q + 1 + rest)) (render_page B list) =
      ⟨(List.range' page q).flatMap (fun p => pageActs B list p ++ [.addPage]) ++
        pageActs B list (page + q), .ok true⟩ := by
  induction q generalizing page with
  | zero =>
      have hlast : render_page B list page = ⟨pageActs B list page, .ok true⟩ :=
        render_page_last hr h
      rw [Nat.zero_add, Nat.add_comm 1 rest, List.range'_succ, JS.forReturn_of_true hlast]
      rfl
  | succ q ih =>
      have hfull : page < list.length / (AMOUNT_X * AMOUNT_Y) := by omega
      have hnext : page + 1 + q = page + (q + 1) := by omega
      have hlen : q + 1 + 1 + rest = q + 1 + rest + 1 := by omega
      rw [hlen, List.range'_succ, JS.forReturn_of_false (render_page_full hr hfull),
        ih (page + 1) (hnext.trans h), hnext, List.range'_succ, List.flatMap_cons]
      simp only [List.append_assoc]

end Run

variable (B) in
/-- All that `render_students` does when every card can be drawn. -/
def layout (list : List Json) : List Act :=
  (List.range (list.length / (AMOUNT_X * AMOUNT_Y))).flatMap
      (fun p => pageActs B list p ++ [.addPage]) ++
    pageActs B list (list.length / (AMOUNT_X * AMOUNT_Y))

theorem returns_layout {list : List Json} (hr : ∀ student ∈ list, Renderable B student) :
    Returns B list (layout B list) := by
  refine ⟨list.length / (AMOUNT_X * AMOUNT_Y) + 1, fun pages hle => ?_⟩
  obtain ⟨rest, rfl⟩ := Nat.exists_eq_add_of_le hle
  rw [render_students, List.range_eq_range', render_pages hr _ 0 rest (Nat.zero_add _),
    Nat.zero_add, ← List.range_eq_range', layout]

theorem Returns.unique {list : List Json} {acts acts' : List Act} (h : Returns B list acts)
    (h' : Returns B list acts') : acts = acts' := by
  obtain ⟨n, hn⟩ := h
  obtain ⟨n', hn'⟩ := h'
  have heq := (hn (max n n') (le_max_left ..)).symm.trans (hn' (max n n') (le_max_right ..))
  exact congrArg JS.acts heq

/-! ## The calls -/

theorem calls_append (l l' : List Act) : calls (l ++ l') = calls l ++ calls l' :=
  List.filterMap_append

theorem calls_flatMap {ι : Type} (l : List ι) (f : ι → List Act) :
    calls (l.flatMap f) = l.flatMap fun i => calls (f i) :=
  List.filterMap_flatMap

theorem calls_pageActs (list : List Json) (page : ℕ) :
    calls (pageActs B list page) =
      (Pages.page (AMOUNT_X * AMOUNT_Y) list.zipIdx page).map fun p => ⟨place p.2, p.1⟩ := by
  rw [pageActs, calls_flatMap]
  simp only [calls_render_card]
  exact List.map_eq_flatMap.symm

/-- The calls go through the list, and number its students. -/
theorem calls_layout (list : List Json) :
    calls (layout B list) = list.zipIdx.map fun p => ⟨place p.2, p.1⟩ := by
  have hpage (page : ℕ) : calls (pageActs B list page ++ [.addPage]) =
      (Pages.page (AMOUNT_X * AMOUNT_Y) list.zipIdx page).map fun p => ⟨place p.2, p.1⟩ :=
    (calls_append ..).trans ((List.append_nil _).trans (calls_pageActs list page))
  have hpages := Pages.flatMap_page AMOUNT_pos list.zipIdx
  rw [List.length_zipIdx] at hpages
  rw [layout, calls_append, calls_flatMap, calls_pageActs]
  simp only [hpage]
  rw [← List.map_flatMap, ← List.map_append, hpages]

theorem students_layout (list : List Json) : (calls (layout B list)).map Call.student = list := by
  rw [calls_layout, List.map_map]
  exact List.zipIdx_map_fst 0 list

theorem places_layout (list : List Json) :
    (calls (layout B list)).map Call.toPlace = (List.range list.length).map place := by
  rw [calls_layout, List.map_map, List.range_eq_range', ← List.zipIdx_map_snd 0 list, List.map_map]
  rfl

/-! ## The pages -/

theorem drawn_append (l l' : List Act) : drawn (l ++ l') = drawn l ++ drawn l' :=
  List.filterMap_append

theorem drawn_flatMap {ι : Type} (l : List ι) (f : ι → List Act) :
    drawn (l.flatMap f) = l.flatMap fun i => drawn (f i) :=
  List.filterMap_flatMap

/-- Drawing on the last page. -/
theorem draw_last (ps : List (List Draw)) (shown : List Draw) (d : Draw) :
    Pdf.draw ⟨ps ++ [shown], ps.length⟩ d = ⟨ps ++ [shown ++ [d]], ps.length⟩ := by
  have hlt : ps.length < (ps ++ [shown]).length := by simp
  rw [Pdf.draw, List.modify_eq_take_cons_drop hlt]
  simp

/-- Acts without a new page draw on the last page, when it is the current one. -/
theorem foldl_step_drawn {acts : List Act} (h : Act.addPage ∉ acts) (ps : List (List Draw))
    (shown : List Draw) :
    acts.foldl Pdf.step ⟨ps ++ [shown], ps.length⟩ = ⟨ps ++ [shown ++ drawn acts], ps.length⟩ := by
  induction acts generalizing shown with
  | nil => simp [drawn]
  | cons a acts ih =>
      obtain ⟨ha, hacts⟩ := not_or.mp (List.mem_cons.not.mp h)
      have hstep : Pdf.step ⟨ps ++ [shown], ps.length⟩ a =
          ⟨ps ++ [shown ++ drawn [a]], ps.length⟩ := by
        cases a with
        | addPage => exact absurd rfl ha
        | draw d => exact draw_last ps shown d
        | _ => simp [Pdf.step, drawn]
      rw [List.foldl_cons, hstep, ih hacts, List.append_assoc, ← drawn_append,
        List.singleton_append]

/-- Stretches of acts with a new page after each of them but the last one. -/
theorem foldl_step_pages {ι : Type} {f : ι → List Act} (hf : ∀ i, Act.addPage ∉ f i)
    (l : List ι) (last : ι) (ps : List (List Draw)) :
    (l.flatMap (fun i => f i ++ [Act.addPage]) ++ f last).foldl Pdf.step
        ⟨ps ++ [[]], ps.length⟩ =
      ⟨ps ++ (l ++ [last]).map fun i => drawn (f i), ps.length + l.length⟩ := by
  induction l generalizing ps with
  | nil => exact foldl_step_drawn (hf last) ps []
  | cons i l ih =>
      have hnew : Pdf.step ⟨ps ++ [drawn (f i)], ps.length⟩ .addPage =
          ⟨ps ++ [drawn (f i)] ++ [[]], (ps ++ [drawn (f i)]).length⟩ := rfl
      rw [List.flatMap_cons, List.append_assoc, List.append_assoc, List.foldl_append,
        foldl_step_drawn (hf i), List.nil_append, List.singleton_append, List.foldl_cons, hnew,
        ih (ps ++ [drawn (f i)])]
      congr 1
      · simp only [List.append_assoc, List.cons_append, List.nil_append, List.map_cons]
      · simp only [List.length_append, List.length_cons, List.length_nil]
        omega

theorem addPage_not_mem_pageActs (list : List Json) (page : ℕ) :
    Act.addPage ∉ pageActs B list page := by
  intro h
  obtain ⟨p, -, hp⟩ := List.mem_flatMap.mp h
  rw [render_card_acts, List.mem_cons] at hp
  rcases hp with hp | hp
  · cases hp
  · exact (OnCard.render_student_card B p.1).acts (place p.2) _ hp

/-- Page by page, the document shows the cards. -/
theorem pages_layout (list : List Json) :
    ((layout B list).foldl Pdf.step .new).pages =
      (List.range (list.length / (AMOUNT_X * AMOUNT_Y) + 1)).map
        fun page => drawn (pageActs B list page) := by
  rw [List.range_succ]
  exact congrArg Pdf.pages
    (foldl_step_pages (addPage_not_mem_pageActs list) (List.range _) _ [])

/-- A page with a card is not blank. -/
theorem drawn_pageActs_ne_nil {list : List Json} (hr : ∀ student ∈ list, Renderable B student)
    {page : ℕ} (h : Pages.page (AMOUNT_X * AMOUNT_Y) list.zipIdx page ≠ []) :
    drawn (pageActs B list page) ≠ [] := by
  obtain ⟨p, hp⟩ := List.exists_mem_of_ne_nil _ h
  have hmem : p ∈ list.zipIdx := List.mem_of_mem_drop (List.mem_of_mem_take hp)
  have hcard := (hr p.1 (List.fst_mem_of_mem_zipIdx hmem)).drawn_ne_nil (place p.2)
  obtain ⟨d, hd⟩ := List.exists_mem_of_ne_nil _ hcard
  have hdrawn : d ∈ drawn (render_card B p.1 p.2).acts := by
    rw [render_card_acts]
    exact hd
  rw [pageActs, drawn_flatMap]
  exact List.ne_nil_of_mem (List.mem_flatMap.mpr ⟨p, hp, hdrawn⟩)

/-! ## Passport pictures that arrive later -/

theorem setPage_pages (pdf : Pdf) (page : ℕ) : (pdf.setPage page).pages = pdf.pages := by
  rw [Pdf.setPage]
  split_ifs <;> rfl

theorem draw_noBlank {pdf : Pdf} (h : [] ∉ pdf.pages) (d : Draw) : [] ∉ (pdf.draw d).pages := by
  intro hmem
  obtain ⟨i, hi, hget⟩ := List.getElem_of_mem hmem
  have hlt : i < pdf.pages.length := by simpa [Pdf.draw] using hi
  simp only [Pdf.draw, List.getElem_modify] at hget
  split_ifs at hget with hcurrent
  · exact List.append_ne_nil_of_right_ne_nil _ (List.cons_ne_nil d []) hget
  · exact h (hget ▸ List.getElem_mem hlt)

variable (B)

theorem view_step (pdf : B.Doc) (a : Act) : B.view (B.step pdf a) = (B.view pdf).step a := by
  cases a with
  | addPage => exact B.view_addPage pdf
  | setFontSize size => exact B.view_setFontSize pdf size
  | setFont name style => exact B.view_setFont pdf name style
  | draw d => exact B.view_draw pdf d
  | call | webcamserv_get => rfl

theorem view_acts (acts : List Act) :
    B.view (acts.foldl B.step B.new) = acts.foldl Pdf.step .new := by
  rw [← B.view_new]
  generalize B.new = pdf
  induction acts generalizing pdf with
  | nil => rfl
  | cons a acts ih => exact (ih _).trans (congrArg (acts.foldl Pdf.step) (view_step B pdf a))

theorem onPasspic_length (pdf : B.Doc) (p : Place) (jpeg : String) :
    (B.view (B.onPasspic pdf p jpeg)).pages.length = (B.view pdf).pages.length := by
  have hset : (B.view (B.setPage pdf (p.page + 1))).pages = (B.view pdf).pages := by
    rw [B.view_setPage, setPage_pages]
  rw [Browser.onPasspic]
  cases B.addImage (some jpeg) with
  | error e => exact congrArg List.length hset
  | ok u =>
      dsimp only
      rw [B.view_draw, Pdf.draw, List.length_modify, hset]

theorem onPasspic_noBlank {pdf : B.Doc} (h : [] ∉ (B.view pdf).pages) (p : Place)
    (jpeg : String) : [] ∉ (B.view (B.onPasspic pdf p jpeg)).pages := by
  have hset : [] ∉ (B.view (B.setPage pdf (p.page + 1))).pages := by
    rwa [B.view_setPage, setPage_pages]
  rw [Browser.onPasspic]
  cases B.addImage (some jpeg) with
  | error e => exact hset
  | ok u =>
      dsimp only
      rw [B.view_draw]
      exact draw_noBlank hset _

theorem shownPages_length (acts : List Act) (arrived : List (Place × String)) :
    (shownPages B acts arrived).length = (acts.foldl Pdf.step .new).pages.length := by
  rw [shownPages, document, ← view_acts B]
  generalize acts.foldl B.step B.new = pdf
  induction arrived generalizing pdf with
  | nil => rfl
  | cons a arrived ih => exact (ih _).trans (onPasspic_length B pdf a.1 a.2)

theorem shownPages_noBlank {acts : List Act} (h : [] ∉ (acts.foldl Pdf.step .new).pages)
    (arrived : List (Place × String)) : [] ∉ shownPages B acts arrived := by
  rw [← view_acts B] at h
  rw [shownPages, document]
  generalize acts.foldl B.step B.new = pdf at h
  induction arrived generalizing pdf with
  | nil => exact h
  | cons a arrived ih => exact ih _ (onPasspic_noBlank B h a.1 a.2)

/-! ## Cards that cannot be drawn -/

/-- Code that ends normally has drawn the card of every student it has called for. -/
def AllDrawn {α : Type} (x : JS Act α) : Prop :=
  ∀ r, x.result = .ok r → ∀ c ∈ calls x.acts, Renderable B c.student

namespace AllDrawn

variable {B} {α β : Type}

theorem of_nil {x : JS Act α} (h : calls x.acts = []) : AllDrawn B x := by
  intro _ _ c hc
  rw [h] at hc
  exact absurd hc List.not_mem_nil

theorem bind {x : JS Act α} {f : α → JS Act β} (hx : AllDrawn B x) (hf : ∀ r, AllDrawn B (f r)) :
    AllDrawn B (x >>= f) := by
  intro r h c hc
  rw [JS.result_bind] at h
  obtain ⟨a, ha, hfa⟩ := except_bind_eq_ok h
  rw [JS.bind_acts_ok ha, calls_append] at hc
  rcases List.mem_append.mp hc with hc | hc
  · exact hx a ha c hc
  · exact hf a r hfa c hc

theorem forReturn {ι : Type} {body : ι → JS Act Bool} (h : ∀ i, AllDrawn B (body i))
    (l : List ι) : AllDrawn B (JS.forReturn l body) := by
  induction l with
  | nil => exact of_nil rfl
  | cons i l ih =>
      rw [JS.forReturn_cons]
      refine bind (h i) fun returned => ?_
      cases returned with
      | true => exact of_nil rfl
      | false => exact ih

theorem render_card (student : Json) (i : ℕ) : AllDrawn B (IdCards.render_card B student i) := by
  intro r h c hc
  rw [calls_render_card, List.mem_singleton] at hc
  subst hc
  have hcard := (JS.act_bind_result ..).symm.trans h
  exact ((OnCard.render_student_card B student).result ⟨0, 0, 0⟩ (place i)).trans hcard

theorem render_page (list : List Json) (page : ℕ) :
    AllDrawn B (IdCards.render_page B list page) := by
  rw [IdCards.render_page, render_slots_eq]
  refine bind (forReturn (fun i => ?_) _) fun returned => ?_
  · rw [JS.visit]
    cases list[i]? with
    | none => exact of_nil rfl
    | some student => exact bind (render_card student i) fun _ => of_nil rfl
  · cases returned with
    | true => exact of_nil rfl
    | false => exact of_nil rfl

end AllDrawn

variable {B}

theorem Returns.renderable {list : List Json} {acts : List Act} (h : Returns B list acts) :
    ∀ c ∈ calls acts, Renderable B c.student := by
  obtain ⟨n, hn⟩ := h
  have hrun : AllDrawn B (render_students B n list) :=
    AllDrawn.forReturn (AllDrawn.render_page list) (List.range n)
  rw [hn n le_rfl] at hrun
  exact hrun true rfl

/-! ## The sheets -/

theorem layout_length (list : List Json) (arrived : List (Place × String)) :
    (shownPages B (layout B list) arrived).length = list.length / (AMOUNT_X * AMOUNT_Y) + 1 := by
  rw [shownPages_length, pages_layout, List.length_map, List.length_range]

theorem sheets_layout {list : List Json} (hr : ∀ student ∈ list, Renderable B student)
    (h : ¬AMOUNT_X * AMOUNT_Y ∣ list.length) : Sheets B list (layout B list) where
  once := students_layout list
  apart := by
    rw [places_layout]
    exact List.nodup_range.map place_injective
  inGrid := by
    intro c hc
    have hplace := List.mem_map_of_mem (f := Call.toPlace) hc
    rw [places_layout] at hplace
    obtain ⟨i, -, hi⟩ := List.mem_map.mp hplace
    rw [← hi]
    exact place_inGrid i
  pages := by
    intro arrived _
    rw [layout_length]
    exact ((Pages.ceilDiv_eq_div_succ_iff AMOUNT_pos _).mpr h).symm
  noBlank := by
    intro arrived _
    refine shownPages_noBlank B ?_ arrived
    rw [pages_layout, List.mem_map]
    rintro ⟨page, hpage, hblank⟩
    refine drawn_pageActs_ne_nil hr (Pages.page_ne_nil AMOUNT_pos ?_ ?_) hblank
    · rwa [List.length_zipIdx]
    · rw [List.length_zipIdx]
      exact Nat.le_of_lt_succ (List.mem_range.mp hpage)

/-- Sheets that are laid out do not end with a full page, since a blank one follows it. -/
theorem LaidOut.renderable_not_dvd {list : List Json} (h : LaidOut B list) :
    (∀ student ∈ list, Renderable B student) ∧ ¬AMOUNT_X * AMOUNT_Y ∣ list.length := by
  obtain ⟨acts, hreturns, hsheets⟩ := h
  have hr : ∀ student ∈ list, Renderable B student := by
    rw [← hsheets.once]
    exact List.forall_mem_map.mpr hreturns.renderable
  obtain rfl := hreturns.unique (returns_layout hr)
  have hpages := hsheets.pages [] (fun _ h => absurd h List.not_mem_nil)
  rw [layout_length] at hpages
  exact ⟨hr, (Pages.ceilDiv_eq_div_succ_iff AMOUNT_pos _).mp hpages.symm⟩

variable (B)

/-- The cards are laid out as they should be exactly when every one of them can be drawn
and the last page is not full. -/
theorem cards_laid_out_iff (list : List Json) :
    LaidOut B list ↔
      (∀ student ∈ list, Renderable B student) ∧ ¬AMOUNT_X * AMOUNT_Y ∣ list.length :=
  ⟨LaidOut.renderable_not_dvd, fun ⟨hr, h⟩ => ⟨_, returns_layout hr, sheets_layout hr h⟩⟩

/-- Documents that are no more than what is seen of them. -/
def viewedPdf : JsPdf where
  Doc := Pdf
  new := .new
  addPage := Pdf.addPage
  setPage := Pdf.setPage
  setFontSize pdf _ := pdf
  setFont pdf _ _ := pdf
  draw := Pdf.draw
  view pdf := pdf
  view_new := rfl
  view_addPage _ := rfl
  view_setPage _ _ := rfl
  view_setFontSize _ _ := rfl
  view_setFont _ _ _ := rfl
  view_draw _ _ := rfl

/-- A browser in which the pictures of the page have been loaded. -/
def loaded : Browser where
  toJsPdf := viewedPdf
  toDataURL := fun _ => .ok "data:image/jpeg;base64,"
  addImage
    | some _ => .ok ()
    | none => .error (.error "Invalid image")
  centerText
    | some (.str _) => .ok ()
    | _ => .error .typeError
  newDate := fun _ => .ok none
  toLowerCase := String.toLower
  toUpperCase := String.toUpper
  saeulogo := some "data:image/jpeg;base64,"
  wunderland := some "data:image/jpeg;base64,"
  passpic_visitors := some "data:image/jpeg;base64,"
  passpic_legalentity := some "data:image/jpeg;base64,"
  passpic_replacement := some "data:image/jpeg;base64,"

def visitor : Json := .obj [("type", .str "visitor"), ("qrid", .str "0815")]

theorem visitor_renderable : Renderable loaded visitor := by
  unfold Renderable
  decide +kernel

/-- Fifteen visitors fill a page, and the document has two. -/
theorem visitors_blank_page :
    List.replicate 15 visitor ≠ [] ∧
      (∀ student ∈ List.replicate 15 visitor, Renderable loaded student) ∧
      (∃ acts, Returns loaded (List.replicate 15 visitor) acts ∧
        (shownPages loaded acts []).length = 2) ∧
      ¬LaidOut loaded (List.replicate 15 visitor) := by
  have hr : ∀ student ∈ List.replicate 15 visitor, Renderable loaded student := by
    intro student h
    rw [List.eq_of_mem_replicate h]
    exact visitor_renderable
  have hfull : AMOUNT_X * AMOUNT_Y = 15 := by decide +kernel
  refine ⟨List.cons_ne_nil _ _, hr, ⟨_, returns_layout hr, ?_⟩, fun h => ?_⟩
  · rw [layout_length, List.length_replicate, hfull]
  · apply h.renderable_not_dvd.2
    rw [List.length_replicate, hfull]

end SchuleAlsStaat.IdCards
