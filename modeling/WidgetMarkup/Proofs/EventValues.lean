import WidgetMarkup.Proofs.Resplitting

namespace WidgetMarkup.Binding

open Text

section
variable (attr source value : String) (span : Option Span)

def parsed : Field.Parsed := Field.split schema (options attr span) value

/-- What can be wrong with the fields of an event. There is no unknown name, and a value without a
name is the target. -/
def canReport : Field.Problem → Bool
  | .unterminatedQuote _ _ | .emptyName _ | .invalidName _ | .duplicate _ | .extraUnnamed _ _ => true
  | .unknown _ | .missingName _ => false

structure Grammar (r : Option Binding × List Diagnostic) : Prop where
  isSome_iff : r.1.isSome = true ↔
    ∃ t ∈ (parsed attr value span).fields, t.key = targetKey ∧ t.text ≠ ""
  binding : ∀ b, r.1 = some b → b.source = source ∧
    (∀ t ∈ (parsed attr value span).fields, t.key = targetKey → b.target = t.text) ∧
    b.props = (parsed attr value span).fields.filter fun f => f.key != targetKey
  props : ∀ b, r.1 = some b → ∀ f ∈ b.props,
    f.kind = .expression ∧ isFieldName f.key.toList = true ∧ f.key ≠ targetKey
  problems : ∀ problem ∈ (parsed attr value span).problems, canReport problem = true
  diagnostics : r.2 = (parsed attr value span).diagnostics (options attr span) value ++
    if r.1.isSome then [] else [.error span (missingTargetMessage attr value)]

end

variable {attr source value : String} {span : Option Span} {b : Binding}

theorem canReport_of_mem {problem : Field.Problem} (h : problem ∈ (parsed attr value span).problems) :
    canReport problem = true := by
  obtain ⟨p, -, seen, keys, hjudge⟩ := Field.exists_rejected h
  cases Field.arises_of_judge hjudge with
  | unknown hunknown =>
      rw [lookup?_schema] at hunknown
      cases hunknown
  | missingName _ hdefault => cases hdefault
  | unterminatedQuote | emptyName | invalidName | duplicate | extraUnnamed => rfl

theorem of_mem_props {f : Field} (h : f ∈ (parsed attr value span).fields) (hne : f.key ≠ targetKey) :
    f.kind = .expression ∧ isFieldName f.key.toList = true := by
  obtain ⟨hself, hspec⟩ := Field.selfContained_of_mem (keepsNames attr span) h
  rw [lookup?_schema, if_neg hne, Option.some.injEq, Field.Spec.mk.injEq] at hspec
  exact ⟨hspec.1.symm, hself.key⟩

theorem find?_target {t : Field} (ht : t ∈ (parsed attr value span).fields)
    (hkey : t.key = targetKey) :
    (parsed attr value span).fields.find? (fun f => f.key == targetKey) = some t := by
  cases hfind : (parsed attr value span).fields.find? fun f => f.key == targetKey with
  | none => exact absurd (beq_iff_eq.2 hkey) (List.find?_eq_none.1 hfind t ht)
  | some t' =>
      obtain ⟨ht', hkey'⟩ := of_find?_target hfind
      rw [Field.eq_of_key_eq ht' ht (hkey'.trans hkey.symm)]

theorem parse_eq_some_iff : (parse attr source value span).1 = some b ↔
    ofFields? source (parsed attr value span).fields = some b := by
  rw [parse, parsed]
  cases ofFields? source (Field.split schema (options attr span) value).fields <;> rfl

/-- The target of a binding is the field of that name, wherever it stands in the value, and the
other fields are its properties. Without a target there is one more diagnostic. -/
theorem parse_grammar (attr source value : String) (span : Option Span) :
    Grammar attr source value span (parse attr source value span) where
  isSome_iff := by
    rw [Option.isSome_iff_exists]
    simp only [parse_eq_some_iff, ofFields?_eq_some_iff]
    constructor
    · rintro ⟨_, t, hfind, htext, -⟩
      obtain ⟨ht, hkey⟩ := of_find?_target hfind
      exact ⟨t, ht, hkey, htext⟩
    · rintro ⟨t, ht, hkey, htext⟩
      exact ⟨_, t, find?_target ht hkey, htext, rfl⟩
  binding b hb := by
    obtain ⟨t, hfind, -, rfl⟩ := ofFields?_eq_some_iff.1 (parse_eq_some_iff.1 hb)
    obtain ⟨ht, hkey⟩ := of_find?_target hfind
    refine ⟨rfl, ?_, rfl⟩
    intro t' ht' hkey'
    rw [Field.eq_of_key_eq ht' ht (hkey'.trans hkey.symm)]
  props b hb f hf := by
    obtain ⟨t, -, -, rfl⟩ := ofFields?_eq_some_iff.1 (parse_eq_some_iff.1 hb)
    obtain ⟨hmem, hne⟩ := List.mem_filter.1 hf
    have hne : f.key ≠ targetKey := by simpa using hne
    obtain ⟨hkind, hname⟩ := of_mem_props hmem hne
    exact ⟨hkind, hname, hne⟩
  problems problem h := canReport_of_mem h
  diagnostics := by
    rw [parse, parsed]
    cases ofFields? source (Field.split schema (options attr span) value).fields with
    | none => rfl
    | some b => exact (List.append_nil _).symm

end WidgetMarkup.Binding
