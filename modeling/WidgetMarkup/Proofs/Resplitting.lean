import WidgetMarkup.Proofs.Delimiters
import WidgetMarkup.Proofs.Rendering
import WidgetMarkup.Proofs.Verdicts

namespace WidgetMarkup

namespace Text

theorem isQuote_of_isInert {c : Char} (h : isInert c = true) : isQuote c = false := by
  simp only [isInert, marks, List.mem_cons, not_or, decide_eq_true_iff] at h
  simp [isQuote, h]

namespace Quoting

theorem outside_of_step {s : List Char} {c : Char} (hc : isQuote c = false)
    (h : outside.after (s ++ [c]) = outside) : outside.after s = outside := by
  have hread := read s
  rw [after_append, after_cons, after_nil] at h
  cases hstate : outside.after s with
  | outside => rfl
  | inside q =>
      rw [hstate] at h hread
      obtain ⟨-, -, -, -, hq, -⟩ := hread
      have hne : (c == q) = false := by
        rw [beq_eq_false_iff_ne]
        rintro rfl
        rw [hq] at hc
        cases hc
      rw [step, hne] at h
      split at h <;> cases h
  | escaped q =>
      rw [hstate] at h
      cases h

theorem outside_of_after_inert {s p : List Char} (hp : p.all isInert = true)
    (h : outside.after (s ++ p) = outside) : outside.after s = outside := by
  induction p generalizing s with
  | nil => rwa [List.append_nil] at h
  | cons c p ih =>
      rw [List.all_cons, Bool.and_eq_true] at hp
      rw [List.append_cons] at h
      exact outside_of_step (isQuote_of_isInert hp.1) (ih hp.2 h)

end Quoting

theorem closed_trim {s : List Char} (h : Closed s) : Closed (trim s) := by
  obtain ⟨p, q, hs, hp, hq⟩ := exists_margins s
  rw [closed_iff, hs] at h
  have htext := Quoting.outside_of_after_inert (all_isInert_of_allBlank hq) h
  rw [Quoting.after_append, Quoting.after_of_all_isInert (all_isInert_of_allBlank hp)] at htext
  exact closed_iff.2 htext

end Text

namespace Field

open Text

theorem unsplit_trim {s : List Char} (h : Unsplit .outside s) : Unsplit .outside (trim s) := by
  obtain ⟨p, q, hs, hp, -⟩ := exists_margins s
  rw [hs, unsplit_append, unsplit_append,
    Quoting.after_of_all_isInert (all_isInert_of_allBlank hp)] at h
  exact h.1.2

theorem Piece.of_read_eq_named {t n x : List Char} (h : Piece.read t = .named n x) :
    Closed x ∧ (Unsplit .outside t → Unsplit .outside x) := by
  rw [Piece.read] at h
  split at h
  case h_1 => cases h
  case h_2 hopen =>
    split at h
    case h_2 => cases h
    case h_1 hcut =>
      cases h
      obtain ⟨rfl, hq, -⟩ := cutName?_eq_some hcut
      rw [Quoting.openQuote?_eq_none_iff, Quoting.after_append, hq] at hopen
      refine ⟨closed_iff.2 hopen, ?_⟩
      intro hs
      rw [unsplit_append, hq, unsplit_cons] at hs
      exact hs.2.2

theorem Piece.of_read_eq_bare {t x : List Char} (h : Piece.read t = .bare x) :
    Closed t ∧ x = t := by
  rw [Piece.read] at h
  split at h
  case h_1 => cases h
  case h_2 hopen =>
    split at h
    case h_1 => cases h
    case h_2 =>
      cases h
      exact ⟨closed_iff.2 (Quoting.openQuote?_eq_none_iff.1 hopen), rfl⟩

/-- A field that can be taken out of its value: the text closes its quotes, and no semicolon in it
ends it. -/
structure SelfContained (f : Field) : Prop where
  key : isFieldName f.key.toList = true
  trimmed : Trimmed f.text.toList
  closed : Closed f.text.toList
  unsplit : ∀ a b, f.text.toList = a ++ ';' :: b → ¬Closed a

structure KeepsNames (schema : Schema) (o : Options) : Prop where
  rename : ∀ name spec, schema.entries.lookup name = some spec → spec.rename = none
  removeDashes : o.removeDashes = false
  defaultName : ∀ name, o.defaultName = some name → isFieldName name.toList = true

variable {schema : Schema} {o : Options} {before : List Piece} {p : Piece} {f : Field}
  {value : String}

theorem of_candidate? (h : candidate? schema o before p = some f) :
    ∃ name x spec, p.assignment? o before = some (name, x) ∧ schema.lookup? name = some spec ∧
      f = ⟨o.storedKey (spec.rename.getD name), spec.kind, Text.trimmed x⟩ := by
  obtain ⟨⟨name, x⟩, hassignment, h⟩ := Option.bind_eq_some_iff.1 h
  obtain ⟨spec, hspec, rfl⟩ := Option.map_eq_some_iff.1 h
  exact ⟨name, x, spec, hassignment, hspec, rfl⟩

theorem of_mem_candidates {ps : List Piece} (h : f ∈ candidates schema o before ps) :
    ∃ before', ∃ p ∈ ps, candidate? schema o before' p = some f := by
  induction ps generalizing before with
  | nil => cases h
  | cons p ps ih =>
      rw [candidates, List.mem_append, Option.mem_toList] at h
      rcases h with h | h
      · exact ⟨before, p, List.mem_cons_self, h⟩
      · obtain ⟨before', q, hq, hf⟩ := ih h
        exact ⟨before', q, List.mem_cons_of_mem p hq, hf⟩

theorem exists_candidate (h : f ∈ (split schema o value).fields) :
    ∃ before, ∃ t ∈ pieces value.toList, candidate? schema o before (Piece.read t) = some f := by
  obtain ⟨before, p, hp, hf⟩ := of_mem_candidates (List.mem_of_find?_eq_some (find?_candidates h))
  obtain ⟨t, ht, rfl⟩ := List.mem_map.1 hp
  exact ⟨before, t, ht, hf⟩

theorem of_assignment? {t x : List Char} {name : String} (hs : Unsplit .outside t)
    (h : (Piece.read t).assignment? o before = some (name, x)) :
    Closed x ∧ Unsplit .outside x ∧
      (isFieldName name.toList = true ∨ o.defaultName = some name) := by
  cases hp : Piece.read t with
  | unclosed q s =>
      rw [hp] at h
      cases h
  | named n y =>
      obtain ⟨hclosed, hunsplit⟩ := Piece.of_read_eq_named hp
      rw [hp, Piece.assignment?] at h
      split at h
      case isTrue hname =>
        cases h
        exact ⟨hclosed, hunsplit hs, .inl (by rwa [Text.trimmed, String.toList_ofList])⟩
      case isFalse => cases h
  | bare y =>
      obtain ⟨hclosed, rfl⟩ := Piece.of_read_eq_bare hp
      rw [hp, Piece.assignment?] at h
      split at h
      · cases h
      · obtain ⟨default, hdefault, he⟩ := Option.map_eq_some_iff.1 h
        cases he
        exact ⟨hclosed, hs, .inr hdefault⟩

theorem KeepsNames.lookup? (h : KeepsNames schema o) {name : String} {spec : Spec}
    (hspec : schema.lookup? name = some spec) : spec.rename = none := by
  rw [Schema.lookup?, Option.or_eq_some_iff] at hspec
  rcases hspec with hspec | ⟨-, hspec⟩
  · exact h.rename name spec hspec
  · exact h.rename wildcard spec hspec

theorem selfContained_of_mem (h : KeepsNames schema o) (hf : f ∈ (split schema o value).fields) :
    f.SelfContained ∧ schema.lookup? f.key = some ⟨f.kind, none⟩ := by
  obtain ⟨before, t, ht, hcandidate⟩ := exists_candidate hf
  obtain ⟨name, x, ⟨kind, rename⟩, hassignment, hspec, rfl⟩ := of_candidate? hcandidate
  obtain ⟨hclosed, hunsplit, hname⟩ := of_assignment? (unsplit_of_mem_pieces ht) hassignment
  obtain rfl : rename = none := h.lookup? hspec
  have hkey : o.storedKey name = name := by rw [Options.storedKey, h.removeDashes]; rfl
  have htext : (Text.trimmed x).toList = trim x := String.toList_ofList
  rw [Option.getD_none, hkey]
  refine ⟨⟨?_, ?_, ?_, ?_⟩, hspec⟩
  · exact hname.elim id (h.defaultName name)
  · rw [htext]
    exact trimmed_trim x
  · rw [htext]
    exact closed_trim hclosed
  · rw [htext]
    intro a b hab
    rw [closed_iff]
    exact unsplit_trim hunsplit a b hab

def assignment (f : Field) : List Char := f.key.toList ++ '=' :: ' ' :: f.text.toList

def assignments (fs : List Field) : String := String.ofList ([';'].intercalate (fs.map assignment))

def spaced (f : Field) : Written := { f with beforeText := [' '] }

theorem chars_spaced (f : Field) : f.spaced.chars = f.assignment := by
  simp [Written.chars, Written.nameChars, Written.textChars, spaced, assignment]

theorem toField_spaced (f : Field) : f.spaced.toField = f := rfl

theorem fits_spaced (h : f.SelfContained) (hspec : schema.lookup? f.key = some ⟨f.kind, none⟩) :
    f.spaced.Fits schema o where
  beforeName := rfl
  afterName := rfl
  beforeText := rfl
  afterText := rfl
  trimmed := h.trimmed
  closed := closed_iff.1 h.closed
  unsplit a b hab := mt closed_iff.2 (h.unsplit a b hab)
  spec := hspec
  name _ := h.key
  gap _ hgap := by cases hgap
  default hbare := by cases hbare

theorem fits_of_mem (h : KeepsNames schema o) (hf : f ∈ (split schema o value).fields) :
    f.spaced.Fits schema o := by
  obtain ⟨hself, hspec⟩ := selfContained_of_mem h hf
  exact fits_spaced hself hspec

theorem outcomes_assignments (h : KeepsNames schema o) (value : String) :
    outcomes schema o false [] (((split schema o value).fields.map assignment).map Piece.read) =
      (split schema o value).fields.map .stored := by
  have hfits : ∀ w ∈ (split schema o value).fields.map spaced, w.Fits schema o :=
    List.forall_mem_map.2 fun f hf => fits_of_mem h hf
  -- none of the fields is left to the default name
  have hnamed : ((split schema o value).fields.map spaced).countP Written.bare = 0 := by
    rw [List.countP_eq_zero, List.forall_mem_map]
    exact fun f _ => Bool.false_ne_true
  have hbare : ((split schema o value).fields.map spaced).countP Written.bare + false.toNat ≤ 1 := by
    rw [hnamed]
    decide
  have hkeys : (([] : List String) ++
      ((split schema o value).fields.map spaced).map fun w => w.key).Nodup := by
    rw [List.nil_append, List.map_map]
    exact stored_keys_distinct.1
  have houtcomes := outcomes_written h.removeDashes hfits hbare hkeys
  simpa only [List.map_map, Function.comp_def, chars_spaced, toField_spaced] using houtcomes

/-- What is stored from a value, be it well formed or not, stands on its own: each text can be
taken out as it is, and the fields can be written out and are read back as the same. -/
theorem split_assignments (schema : Schema) (o : Options) (h : KeepsNames schema o) (value : String) :
    (∀ f ∈ (split schema o value).fields, f.SelfContained) ∧
      split schema o (assignments (split schema o value).fields) =
        ⟨(split schema o value).fields, []⟩ := by
  refine ⟨fun f hf => (selfContained_of_mem h hf).1, ?_⟩
  apply split_intercalate
  · rw [List.forall_mem_map]
    intro f hf
    rw [← chars_spaced]
    exact unsplit_chars (fits_of_mem h hf)
  · rw [List.forall_mem_map]
    intro f hf
    rw [← chars_spaced]
    exact closed_chars (fits_of_mem h hf)
  · exact outcomes_assignments h value

end Field

theorem Binding.keepsNames (attr : String) (span : Option Span) :
    Field.KeepsNames schema (options attr span) where
  rename name spec h := by
    rw [schema, List.lookup_cons, List.lookup_cons] at h
    split at h
    · cases h
      rfl
    · split at h
      · cases h
        rfl
      · cases h
  removeDashes := rfl
  defaultName name h := by
    cases h
    decide

namespace Field

/-- An invalid name and an open quote leave the first text as it is, though it begins with `=`. -/
theorem split_broken_value :
    KeepsNames Binding.schema (Binding.options "event-click" none) ∧
      (split Binding.schema (Binding.options "event-click" none) "a= =b; 2x=c; 'd; e").fields =
        [⟨"a", .expression, "=b"⟩] ∧
      (∀ f ∈ [(⟨"a", .expression, "=b"⟩ : Field)], f.SelfContained) ∧
      split Binding.schema (Binding.options "event-click" none) "a= =b" =
        ⟨[⟨"a", .expression, "=b"⟩], []⟩ := by
  have hkeeps := Binding.keepsNames "event-click" none
  have hfields : (split Binding.schema (Binding.options "event-click" none)
      "a= =b; 2x=c; 'd; e").fields = [⟨"a", .expression, "=b"⟩] := by decide
  have hsplit := split_assignments Binding.schema (Binding.options "event-click" none) hkeeps
    "a= =b; 2x=c; 'd; e"
  rw [hfields] at hsplit
  exact ⟨hkeeps, hfields, hsplit.1, hsplit.2⟩

end Field
end WidgetMarkup
