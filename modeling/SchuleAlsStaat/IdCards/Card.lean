import SchuleAlsStaat.IdCards.Model

/-!
# One card

A card is drawn on the page that is current: drawing it adds no page and calls for no
other card.  Whether it can be drawn does not depend on its place (`OnCard`).  A card
that has been drawn shows something (`Renderable.drawn_ne_nil`).
-/

namespace SchuleAlsStaat.IdCards

open Js

variable (B : Browser)

/-- An act that leaves the pages of the document in place. -/
def Act.OnCard : Act → Prop
  | .call _ | .addPage => False
  | _ => True

/-- The code performs acts on a card only, and its result does not depend on where the
card is. -/
structure OnCard {α : Type} (x : Place → JS Act α) : Prop where
  acts : ∀ p, ∀ a ∈ (x p).acts, a.OnCard
  result : ∀ p q, (x p).result = (x q).result

namespace OnCard

variable {α β : Type}

theorem lift (r : Except Exn α) : OnCard fun _ => JS.lift r :=
  ⟨fun _ _ h => absurd h List.not_mem_nil, fun _ _ => rfl⟩

theorem act {a : Place → Act} (h : ∀ p, (a p).OnCard) : OnCard fun p => JS.act (a p) :=
  ⟨fun p => List.forall_mem_singleton.mpr (h p), fun _ _ => rfl⟩

theorem pure (r : α) : OnCard fun _ => (Pure.pure r : JS Act α) := lift (.ok r)

theorem forEach {ι : Type} (l : List ι) {a : Place → ι → Act} (h : ∀ p i, (a p i).OnCard) :
    OnCard fun p => JS.forEach l (a p) := by
  refine ⟨fun p b hb => ?_, fun _ _ => rfl⟩
  obtain ⟨i, -, rfl⟩ := List.mem_map.mp hb
  exact h p i

theorem bind {x : Place → JS Act α} {f : α → Place → JS Act β} (hx : OnCard x)
    (hf : ∀ r, OnCard (f r)) : OnCard fun p => x p >>= fun r => f r p := by
  constructor
  · intro p a ha
    rcases JS.mem_bind_acts.mp ha with h | ⟨r, -, h⟩
    · exact hx.acts p a h
    · exact (hf r).acts p a h
  · intro p q
    rw [JS.result_bind, JS.result_bind, hx.result p q]
    congr 1
    funext r
    exact (hf r).result p q

theorem ite {b : Bool} {x y : Place → JS Act α} (hx : OnCard x) (hy : OnCard y) :
    OnCard fun p => if b then x p else y p := by
  cases b with
  | true => exact hx
  | false => exact hy

theorem addImage (imageData : Option String) (x y : Place → ℚ) (w h : ℚ) :
    OnCard fun p => IdCards.addImage B imageData (x p) (y p) w h :=
  bind (lift _) fun _ => act fun _ => trivial

theorem centerText (x y : Place → ℚ) (txt : JsVal) :
    OnCard fun p => IdCards.centerText B (x p) (y p) txt :=
  bind (lift _) fun _ => act fun _ => trivial

variable (student : Json)

theorem render_qrcode : OnCard fun p => IdCards.render_qrcode B student p.xpos p.ypos :=
  bind (lift _) fun _ => addImage B ..

theorem addPasspic (imageData : Option String) :
    OnCard fun p => IdCards.addPasspic B p.xpos p.ypos imageData :=
  addImage B ..

theorem render_passpic :
    OnCard fun p => IdCards.render_passpic B student p.page p.xpos p.ypos := by
  refine bind (lift _) fun _ => ite ?_ ?_
  · exact bind (lift _) fun _ => act fun _ => trivial
  · refine bind (lift _) fun _ => ite (addPasspic B _) ?_
    exact bind (lift _) fun _ => ite (addPasspic B _) (pure ())

theorem render_legalentity : OnCard fun p => IdCards.render_legalentity B student p.xpos p.ypos :=
  bind (lift _) fun _ => ite (addPasspic B _) (pure ())

theorem setTitleFontSize (title : JsVal) : OnCard fun _ => IdCards.setTitleFontSize title :=
  bind (act fun _ => trivial) fun _ => bind (lift _) fun _ =>
    ite (act fun _ => trivial) (pure ())

theorem render_title (title : JsVal) :
    OnCard fun p => IdCards.render_title B title p.xpos p.ypos :=
  bind (setTitleFontSize title) fun _ => bind (act fun _ => trivial) fun _ => centerText B ..

theorem render_text (lines : List String) :
    OnCard fun p => IdCards.render_text lines p.xpos p.ypos :=
  bind (act fun _ => trivial) fun _ => bind (act fun _ => trivial) fun _ =>
    forEach _ fun _ _ => trivial

theorem render_qrid : OnCard fun p => IdCards.render_qrid B student p.xpos p.ypos :=
  bind (lift _) fun _ => bind (act fun _ => trivial) fun _ => bind (lift _) fun _ =>
    centerText B ..

theorem render_logos : OnCard fun p => IdCards.render_logos B p.xpos p.ypos :=
  bind (addImage B ..) fun _ => addImage B ..

theorem render_student_card :
    OnCard fun p => IdCards.render_student_card B student p.page p.xpos p.ypos := by
  refine bind (render_qrcode B student) fun _ => ?_
  refine bind (render_passpic B student) fun _ => ?_
  refine bind (render_legalentity B student) fun _ => ?_
  refine bind (lift _) fun readable => ?_
  refine bind (render_title B readable.title) fun _ => ?_
  refine bind (render_text readable.lines) fun _ => ?_
  exact bind (render_qrid B student) fun _ => render_logos B

end OnCard

variable {B}

theorem Renderable.result {student : Json} (h : Renderable B student) (p : Place) :
    (render_student_card B student p.page p.xpos p.ypos).result = .ok () :=
  ((OnCard.render_student_card B student).result p ⟨0, 0, 0⟩).trans h

/-- What the acts draw. -/
def drawn (acts : List Act) : List Draw :=
  acts.filterMap fun a => match a with
    | .draw d => some d
    | _ => none

theorem mem_drawn {acts : List Act} {d : Draw} (h : .draw d ∈ acts) : d ∈ drawn acts :=
  List.mem_filterMap.mpr ⟨_, h, rfl⟩

/-- A card shows at least its QR code. -/
theorem Renderable.drawn_ne_nil {student : Json} (h : Renderable B student) (p : Place) :
    drawn (render_student_card B student p.page p.xpos p.ypos).acts ≠ [] := by
  have hresult := h.result p
  rw [render_student_card, JS.result_bind] at hresult
  obtain ⟨⟨⟩, hqrcode, -⟩ := except_bind_eq_ok hresult
  rw [render_qrcode, JS.result_bind] at hqrcode
  obtain ⟨qrdat, hqrdat, himage⟩ := except_bind_eq_ok hqrcode
  rw [addImage, JS.result_bind] at himage
  obtain ⟨⟨⟩, hadd, -⟩ := except_bind_eq_ok himage
  have hmem : .draw (.addImage (some qrdat) (p.xpos + QRCODE_OFFSET_X) (p.ypos + QRCODE_OFFSET_Y)
      QRCODE_W QRCODE_H) ∈ (render_qrcode B student p.xpos p.ypos).acts :=
    JS.mem_lift_bind_acts.mpr
      ⟨qrdat, hqrdat, JS.mem_lift_bind_acts.mpr ⟨(), hadd, List.mem_singleton_self _⟩⟩
  exact List.ne_nil_of_mem (mem_drawn (JS.mem_bind_acts.mpr (.inl hmem)))

theorem calls_eq_nil {acts : List Act} (h : ∀ a ∈ acts, a.OnCard) : calls acts = [] := by
  refine List.filterMap_eq_nil_iff.mpr fun a ha => ?_
  cases a with
  | call c => exact (h _ ha).elim
  | _ => rfl

end SchuleAlsStaat.IdCards
