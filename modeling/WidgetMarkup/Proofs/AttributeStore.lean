import WidgetMarkup.Proofs.EditHistory
import WidgetMarkup.Proofs.Frame

namespace WidgetMarkup

open Edit

inductive Side
  | attrs
  | props
  deriving DecidableEq

namespace Tag

def entries (t : Tag) : Side → List Attribute
  | .attrs => t.attrs
  | .props => t.props

def read? (t : Tag) : Side → Name → Option Value
  | .attrs, n => t.attr? n
  | .props, n => t.prop? n

def edit (t : Tag) : Side × Edit → Tag
  | (.attrs, .put n v) => t.putAttr (.plain n) v
  | (.attrs, .append ns n v) => t.appendAttr (.within ns n) v
  | (.attrs, .remove ns n) => t.withoutAttr (.within ns n)
  | (.props, .put n v) => t.putProp (.plain n) v
  | (.props, .append ns n v) => t.appendProp (.within ns n) v
  | (.props, .remove ns n) => t.withoutProp (.within ns n)

/-- A removal returns the value of the entry that it takes off. -/
def answer? (t : Tag) : Side × Edit → Option Value
  | (side, .remove ns n) => t.read? side (.within ns n)
  | _ => none

def editAll (t : Tag) (es : List (Side × Edit)) : Tag := es.foldl edit t

end Tag

def history (side : Side) (es : List (Side × Edit)) : List Edit :=
  es.filterMap fun e => if e.1 = side then some e.2 else none

def untouched (e : Side × Edit) (side : Side) (n : Name) : Bool := side != e.1 || n != e.2.name

namespace Tag

variable {t : Tag} {side : Side} {n : Name}

theorem read?_eq_value? (t : Tag) (side : Side) (n : Name) :
    t.read? side n = Attribute.value? n (t.entries side) := by
  cases side <;> rfl

theorem entries_edit (t : Tag) (e : Side × Edit) (side : Side) : (t.edit e).entries side =
    if e.1 = side then e.2.apply (t.entries side) else t.entries side := by
  rcases e with ⟨_ | _, _ | _ | _⟩ <;> cases side <;> rfl

theorem entries_editAll (t : Tag) (es : List (Side × Edit)) (side : Side) :
    (t.editAll es).entries side = (history side es).foldl Edit.apply (t.entries side) := by
  induction es generalizing t with
  | nil => rfl
  | cons e es ih =>
      have hstep : t.editAll (e :: es) = (t.edit e).editAll es := rfl
      rw [hstep, ih, entries_edit, history, history, List.filterMap_cons]
      by_cases he : e.1 = side <;> simp [he]

theorem frame_edit (t : Tag) (e : Side × Edit) :
    Frame (untouched e .attrs) (untouched e .props) t (t.edit e) := by
  have hself : untouched e e.1 e.2.name = false := by simp [untouched]
  rcases e with ⟨_ | _, ⟨n, v⟩ | ⟨ns, n, v⟩ | ⟨ns, n⟩⟩
  · exact Frame.putAttr hself v
  · exact Frame.appendAttr hself v
  · exact Frame.withoutAttr hself
  · exact Frame.putProp hself v
  · exact Frame.appendProp hself v
  · exact Frame.withoutProp hself

theorem read?_edit {e : Side × Edit} (h : untouched e side n = true) :
    (t.edit e).read? side n = t.read? side n := by
  cases side with
  | attrs => exact (frame_edit t e).attr?_eq h
  | props => exact (frame_edit t e).prop?_eq h

end Tag

/-- What an element shows after these edits. -/
structure Shown (es : List (Side × Edit)) (t : Tag) : Prop where
  dated : ∀ side, ∃ dated, dated.map Prod.snd = t.entries side ∧ Dated (history side es) dated
  once : ∀ side n, ((t.entries side).countP fun a => a.name == .plain n) ≤ 1
  last : ∀ side n, t.read? side (.plain n) =
    (settings n (history side es)).getLast?.map Prod.snd
  /-- a plain name stands where it was set first -/
  place : ∀ side n, (slot (.plain n) (history side es)).map Prod.fst =
    ((settings n (history side es)).head?.map Prod.fst).toList
  oldest : ∀ side ns n, t.read? side (.within ns n) =
    (slot (.within ns n) (history side es)).head?.map Prod.snd
  removed : ∀ side ns n, t.answer? (side, .remove ns n) =
    (slot (.within ns n) (history side es)).head?.map Prod.snd
  exhausted : ∀ side ns n, t.answer? (side, .remove ns n) = none ↔
    slot (.within ns n) (history side es) = []
  others : ∀ e, Tag.Frame (untouched e .attrs) (untouched e .props) t (t.edit e)
  reads : ∀ e side n, untouched e side n = true → (t.edit e).read? side n = t.read? side n

theorem Dated.value? {es : List Edit} {dated : List (Nat × Attribute)} (h : Dated es dated)
    (n : Name) : Attribute.value? n (dated.map Prod.snd) = (slot n es).head?.map Prod.snd := by
  rw [← h.slots, Attribute.value?_eq_head?_filter, List.filter_map, List.head?_map, List.head?_map]
  simp [Function.comp_def]

theorem first_slot_plain (n : String) (es : List Edit) :
    (slot (.plain n) es).map Prod.fst = ((settings n es).head?.map Prod.fst).toList ∧
      (slot (.plain n) es).head?.map Prod.snd = (settings n es).getLast?.map Prod.snd := by
  rw [slot_plain]
  cases settings n es <;> simp [List.getLast?_cons]

namespace Tag

variable {t : Tag} {side : Side}

theorem dated_editAll (h : t.entries side = []) (es : List (Side × Edit)) :
    ∃ dated, dated.map Prod.snd = (t.editAll es).entries side ∧ Dated (history side es) dated := by
  rw [entries_editAll, h]
  exact Dated.run (history side es)

theorem read?_editAll (h : t.entries side = []) (es : List (Side × Edit)) (n : Name) :
    (t.editAll es).read? side n = (slot n (history side es)).head?.map Prod.snd := by
  obtain ⟨dated, hentries, hdated⟩ := dated_editAll h es
  rw [read?_eq_value?, ← hentries, hdated.value?]

end Tag

/-- Attributes and properties of a new element are a map of its plain names and a queue for each
name in a namespace, whatever is done to them. -/
theorem edits_shown (name : Name) (isHandler : Bool) (es : List (Side × Edit)) :
    Shown es (({ name, isHandler } : Tag).editAll es) := by
  have hnew (side : Side) : ({ name, isHandler } : Tag).entries side = [] := by cases side <;> rfl
  have hread (side : Side) := Tag.read?_editAll (hnew side) es
  constructor
  case dated => exact fun side => Tag.dated_editAll (hnew side) es
  case once =>
    intro side n
    obtain ⟨dated, hentries, h⟩ := Tag.dated_editAll (hnew side) es
    rw [← hentries, h.countP]
    exact length_slot_plain n (history side es)
  case last =>
    intro side n
    rw [hread]
    exact (first_slot_plain n (history side es)).2
  case place => exact fun side n => (first_slot_plain n (history side es)).1
  case oldest => exact fun side ns n => hread side (.within ns n)
  case removed => exact fun side ns n => hread side (.within ns n)
  case exhausted =>
    intro side ns n
    rw [Tag.answer?, hread, Option.map_eq_none_iff, List.head?_eq_none_iff]
  case others => exact Tag.frame_edit _
  case reads => exact fun e side n h => Tag.read?_edit h

end WidgetMarkup
