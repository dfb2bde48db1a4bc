import Mathlib.Data.List.Basic
import WidgetMarkup.Proofs.AttributeList

namespace WidgetMarkup

/-- The second tag is the first one up to attributes and properties whose names are not to be kept
and up to code added at the end. -/
structure Tag.Frame (keepAttr keepProp : Name → Bool) (t t' : Tag) : Prop where
  name : t'.name = t.name
  isHandler : t'.isHandler = t.isHandler
  span : t'.span = t.span
  pre : t.pre <+: t'.pre
  post : t.post <+: t'.post
  attrs : (t'.attrs.filter fun a => keepAttr a.name) = t.attrs.filter fun a => keepAttr a.name
  props : (t'.props.filter fun p => keepProp p.name) = t.props.filter fun p => keepProp p.name

namespace Tag.Frame

variable {A A' P P' : Name → Bool} {t t' t'' : Tag} {n : Name}

theorem refl (t : Tag) : Frame A P t t :=
  ⟨rfl, rfl, rfl, List.prefix_refl _, List.prefix_refl _, rfl, rfl⟩

theorem trans (h : Frame A P t t') (h' : Frame A P t' t'') : Frame A P t t'' where
  name := h'.name.trans h.name
  isHandler := h'.isHandler.trans h.isHandler
  span := h'.span.trans h.span
  pre := h.pre.trans h'.pre
  post := h.post.trans h'.post
  attrs := h'.attrs.trans h.attrs
  props := h'.props.trans h.props

theorem filter_mono {K L : Name → Bool} (hL : ∀ n, L n = true → K n = true)
    {as as' : List Attribute}
    (h : (as'.filter fun a => K a.name) = as.filter fun a => K a.name) :
    (as'.filter fun a => L a.name) = as.filter fun a => L a.name := by
  have hsub (bs : List Attribute) :
      (bs.filter fun a => L a.name) = (bs.filter fun a => K a.name).filter fun a => L a.name := by
    rw [List.filter_filter]
    apply List.filter_congr
    intro a _
    cases ha : L a.name
    · rfl
    · simp [hL a.name ha]
  rw [hsub as', hsub as, h]

theorem mono (hA : ∀ n, A' n = true → A n = true) (hP : ∀ n, P' n = true → P n = true)
    (h : Frame A P t t') : Frame A' P' t t' :=
  { h with attrs := filter_mono hA h.attrs, props := filter_mono hP h.props }

theorem withoutAttr (hn : A n = false) : Frame A P t (t.withoutAttr n) :=
  { refl (A := A) (P := P) t with attrs := Attribute.filter_without hn }

theorem putAttr (hn : A n = false) (value : Value) : Frame A P t (t.putAttr n value) :=
  { refl (A := A) (P := P) t with attrs := Attribute.filter_put hn }

theorem putProp (hn : P n = false) (value : Value) : Frame A P t (t.putProp n value) :=
  { refl (A := A) (P := P) t with props := Attribute.filter_put hn }

theorem withoutProp (hn : P n = false) : Frame A P t (t.withoutProp n) :=
  { refl (A := A) (P := P) t with props := Attribute.filter_without hn }

theorem appendAttr (hn : A n = false) (value : Value) : Frame A P t (t.appendAttr n value) :=
  { refl (A := A) (P := P) t with attrs := by simp [Tag.appendAttr, hn] }

theorem appendProp (hn : P n = false) (value : Value) : Frame A P t (t.appendProp n value) :=
  { refl (A := A) (P := P) t with props := by simp [Tag.appendProp, hn] }

theorem filter_attrs (h : Frame A P t t') (hn : A n = true) :
    (t'.attrs.filter fun a => a.name == n) = t.attrs.filter fun a => a.name == n :=
  filter_mono (L := fun m => m == n) (fun m hm => by rw [beq_iff_eq.1 hm]; exact hn) h.attrs

theorem attr?_eq (h : Frame A P t t') (hn : A n = true) : t'.attr? n = t.attr? n := by
  rw [Tag.attr?, Tag.attr?, Attribute.value?_eq_head?_filter, Attribute.value?_eq_head?_filter,
    h.filter_attrs hn]

theorem prop?_eq (h : Frame A P t t') (hn : P n = true) : t'.prop? n = t.prop? n := by
  have hfilter := filter_mono (L := fun m => m == n)
    (fun m hm => by rw [beq_iff_eq.1 hm]; exact hn) h.props
  rw [Tag.prop?, Tag.prop?, Attribute.value?_eq_head?_filter, Attribute.value?_eq_head?_filter,
    hfilter]

theorem countP_eq (h : Frame A P t t') (hn : A n = true) :
    (t'.attrs.countP fun a => a.name == n) = t.attrs.countP fun a => a.name == n := by
  rw [List.countP_eq_length_filter, List.countP_eq_length_filter, h.filter_attrs hn]

theorem props_eq (h : Frame A (fun _ => true) t t') : t'.props = t.props := by
  simpa only [List.filter_true] using h.props

end Tag.Frame
end WidgetMarkup
