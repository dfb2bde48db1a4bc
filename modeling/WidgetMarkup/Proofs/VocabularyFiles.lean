import WidgetMarkup.Proofs.SkippedValues
import WidgetMarkup.Vocabulary.Json

namespace WidgetMarkup.Vocabulary

open Json Text

variable {v : Vocabulary} {p : Problem}

def required (v : Vocabulary) : List (String × String) :=
  [("namespace", v.ns), ("prefix", v.label), ("widgetTag", v.widgetTag),
    ("helperModule", v.helperModule), ("exportName", v.argsHelper.exported),
    ("exportName", v.cleanupHelper.exported)]

def aliases (v : Vocabulary) : List String := [v.argsHelper.localName, v.cleanupHelper.localName]

structure Usable (v : Vocabulary) : Prop where
  filled : ∀ f ∈ v.required, allBlank f.2.toList = false
  named : ∀ n ∈ v.aliases, isIdentifier n.toList = true

def Problem.Concerns (v : Vocabulary) : Problem → Prop
  | emptyField field => ∃ s, (field, s) ∈ v.required ∧ allBlank s.toList = true
  | invalidAlias name => name ∈ v.aliases ∧ isIdentifier name.toList = false

theorem emptyField?_eq_none_iff {field s : String} :
    emptyField? field s = none ↔ allBlank s.toList = false := by
  simp [emptyField?]

theorem helperProblem?_eq_none_iff {h : HelperName} : helperProblem? h = none ↔
    allBlank h.exported.toList = false ∧ isIdentifier h.localName.toList = true := by
  simp [helperProblem?, emptyField?_eq_none_iff]

theorem problem?_eq_none_iff : v.problem? = none ↔ v.Usable := by
  have hchecks : v.problem? = none ↔
      (allBlank v.ns.toList = false ∧ allBlank v.label.toList = false ∧
        allBlank v.widgetTag.toList = false ∧ allBlank v.helperModule.toList = false) ∧
      (allBlank v.argsHelper.exported.toList = false ∧
        isIdentifier v.argsHelper.localName.toList = true) ∧
      allBlank v.cleanupHelper.exported.toList = false ∧
        isIdentifier v.cleanupHelper.localName.toList = true := by
    simp [problem?, emptyField?_eq_none_iff, helperProblem?_eq_none_iff, and_assoc]
  rw [hchecks]
  constructor
  · rintro ⟨⟨hns, hlabel, htag, hmodule⟩, ⟨hargs, hargsName⟩, hcleanup, hcleanupName⟩
    exact ⟨by simp [required, *], by simp [aliases, *]⟩
  · intro h
    have hfilled := h.filled
    have hnamed := h.named
    simp only [required, aliases, List.forall_mem_cons] at hfilled hnamed
    simp [hfilled, hnamed]

theorem concerns_of_emptyField? {field s : String} (hmem : (field, s) ∈ v.required)
    (h : emptyField? field s = some p) : p.Concerns v := by
  rw [emptyField?, Option.ite_none_right_eq_some, Option.some.injEq] at h
  obtain ⟨hblank, rfl⟩ := h
  exact ⟨s, hmem, hblank⟩

theorem concerns_of_helperProblem? {n : HelperName}
    (hfield : ("exportName", n.exported) ∈ v.required) (halias : n.localName ∈ v.aliases)
    (h : helperProblem? n = some p) : p.Concerns v := by
  rw [helperProblem?, Option.or_eq_some_iff] at h
  rcases h with h | ⟨-, h⟩
  · exact concerns_of_emptyField? hfield h
  · rw [Option.ite_none_left_eq_some, Option.some.injEq] at h
    obtain ⟨hname, rfl⟩ := h
    exact ⟨halias, by simpa using hname⟩

theorem concerns_of_problem? (h : v.problem? = some p) : p.Concerns v := by
  obtain ⟨check, hcheck, h⟩ := List.exists_of_findSome?_eq_some h
  simp only [List.mem_cons, List.not_mem_nil, or_false] at hcheck
  rcases hcheck with rfl | rfl | rfl | rfl | rfl | rfl
  case inr.inr.inr.inr.inl | inr.inr.inr.inr.inr =>
    exact concerns_of_helperProblem? (by simp [required]) (by simp [aliases]) h
  all_goals exact concerns_of_emptyField? (by simp [required]) h

theorem usable_default : Usable {} := problem?_eq_none_iff.1 (by decide)

/-- What is read is what the text says, and it can be used. -/
theorem ofJson_eq_ok_iff {s : String} : ofJson s = .ok v ↔ readAll read s = .ok v ∧ v.Usable := by
  rw [ofJson, ← problem?_eq_none_iff]
  cases hread : readAll read s with
  | error f => simp
  | ok w =>
      dsimp only
      cases hproblem : w.problem? with
      | none =>
          constructor
          · rintro ⟨⟩
            exact ⟨rfl, hproblem⟩
          · rintro ⟨⟨⟩, -⟩
            rfl
      | some p =>
          constructor
          · rintro ⟨⟩
          · rintro ⟨⟨⟩, hnone⟩
            cases hproblem.symm.trans hnone

theorem concerns_of_ofJson {s : String} (h : ofJson s = .error (.invalid p)) :
    ∃ v, readAll read s = .ok v ∧ p.Concerns v := by
  rw [ofJson] at h
  split at h
  case h_1 => cases h
  case h_2 v hread =>
    split at h
    case h_1 hproblem =>
      cases h
      exact ⟨v, hread, concerns_of_problem? hproblem⟩
    case h_2 => cases h

theorem usable_of_ofFile {bytes : Option ByteArray} (h : ofFile bytes = .ok v) : v.Usable := by
  rw [ofFile] at h
  split at h
  · cases h
  · exact (ofJson_eq_ok_iff.1 h).2

/-- One thing that a file can say, about the vocabulary or about something else. -/
inductive Setting
  | ns (s : String)
  | label (s : String)
  | widgetTag (s : String)
  | helperModule (s : String)
  | argsHelper (h : HelperName)
  | cleanupHelper (h : HelperName)
  | other (key : String) {value : List Char} (h : IsValue value)

def helperChars (h : HelperName) : List Char :=
  object [⟨"exportName", quoted h.exported.toList⟩, ⟨"alias", quoted h.localName.toList⟩]

theorem reads_helper (h : HelperName) : Reads HelperName.read (helperChars h) h := by
  rw [HelperName.read]
  apply reads_object
  · apply Fills.of rfl rfl (reads_string _)
    apply Fills.of rfl rfl (reads_string _)
    exact .nil _
  · rfl

namespace Setting

def key : Setting → String
  | ns _ => "namespace"
  | label _ => "prefix"
  | widgetTag _ => "widgetTag"
  | helperModule _ => "helperModule"
  | argsHelper _ => "widgetArgsHelper"
  | cleanupHelper _ => "cleanupHelper"
  | other key _ => key

def isOther : Setting → Bool
  | other _ _ => true
  | _ => false

def chars : Setting → List Char
  | ns s | label s | widgetTag s | helperModule s => quoted s.toList
  | argsHelper h | cleanupHelper h => helperChars h
  | @other _ value _ => value

def toMember (s : Setting) : Member := ⟨s.key, s.chars⟩

def put (d : Draft) : Setting → Draft
  | ns s => { d with ns := some s }
  | label s => { d with label := some s }
  | widgetTag s => { d with widgetTag := some s }
  | helperModule s => { d with helperModule := some s }
  | argsHelper h => { d with argsHelper := some h }
  | cleanupHelper h => { d with cleanupHelper := some h }
  | other _ _ => d

def Unset (d : Draft) : Setting → Prop
  | ns _ => d.ns = none
  | label _ => d.label = none
  | widgetTag _ => d.widgetTag = none
  | helperModule _ => d.helperModule = none
  | argsHelper _ => d.argsHelper = none
  | cleanupHelper _ => d.cleanupHelper = none
  | other key _ => key ∉ fields.map RecordField.key

theorem unset_put {d : Draft} {s t : Setting}
    (hkey : s.isOther = false → t.isOther = false → s.key ≠ t.key) (h : t.Unset d) :
    t.Unset (put d s) := by
  cases s <;> cases t <;> first | exact h | exact absurd rfl (hkey rfl rfl)

end Setting

theorem fills_setting {d d' : Draft} {ms : List Member} {s : Setting} (hunset : s.Unset d)
    (hrest : Fills fields (s.put d) ms d') : Fills fields d (s.toMember :: ms) d' := by
  cases s with
  | ns s => exact Fills.of rfl hunset (reads_string s) hrest
  | label s => exact Fills.of rfl hunset (reads_string s) hrest
  | widgetTag s => exact Fills.of rfl hunset (reads_string s) hrest
  | helperModule s => exact Fills.of rfl hunset (reads_string s) hrest
  | argsHelper h => exact Fills.of rfl hunset (reads_helper h) hrest
  | cleanupHelper h => exact Fills.of rfl hunset (reads_helper h) hrest
  | other key hvalue =>
      apply Fills.unknown _ (fun _ h => skipValue_of_isValue hvalue h) hrest
      rw [List.find?_eq_none]
      intro f hf hkey
      exact hunset (List.mem_map.2 ⟨f, hf, beq_iff_eq.1 hkey⟩)

structure Consistent (ss : List Setting) : Prop where
  once : ss.Pairwise fun s t => s.isOther = false → t.isOther = false → s.key ≠ t.key
  foreign : ∀ s ∈ ss, s.isOther = true → s.key ∉ fields.map RecordField.key

theorem fills_settings {ss : List Setting} (hkeys : ss.Pairwise fun s t =>
      s.isOther = false → t.isOther = false → s.key ≠ t.key)
    {d : Draft} (hunset : ∀ s ∈ ss, s.Unset d) :
    Fills fields d (ss.map Setting.toMember) (ss.foldl Setting.put d) := by
  induction hkeys generalizing d with
  | nil => exact .nil d
  | @cons s ss hs _ ih =>
      rw [List.forall_mem_cons] at hunset
      apply fills_setting hunset.1
      -- a setting for another key leaves the fields of the others open
      apply ih
      intro t ht
      exact Setting.unset_put (hs t ht) (hunset.2 t ht)

/-- A file may say any of the things that there are to say, in any order, and other things besides.
What it does not say has its default. -/
theorem ofJson_settings {ss : List Setting} (h : Consistent ss) :
    ofJson (String.ofList (object (ss.map Setting.toMember))) =
      match (ss.foldl Setting.put {}).vocabulary.problem? with
      | some p => .error (.invalid p)
      | none => .ok (ss.foldl Setting.put {}).vocabulary := by
  have hunset : ∀ s ∈ ss, s.Unset {} := by
    intro s hs
    cases s with
    | other key hvalue => exact h.foreign _ hs rfl
    | _ => rfl
  have hread : Reads read (object (ss.map Setting.toMember)) (ss.foldl Setting.put {}).vocabulary :=
    reads_object (fills_settings h.once hunset) rfl
  cases hproblem : (ss.foldl Setting.put {}).vocabulary.problem? <;>
    simp [ofJson, hread.readAll, hproblem]

end WidgetMarkup.Vocabulary
