import Mathlib.Data.List.Nodup
import WidgetMarkup.Binding
import WidgetMarkup.Proofs.Recovery
import WidgetMarkup.Proofs.Trimming

namespace WidgetMarkup

open Text

namespace Field

def Piece.isBlankNamed : Piece → Bool
  | named _ x => allBlank x
  | _ => false

def hasBlankNamed (s : String) : Bool := (Piece.readAll s.toList).any Piece.isBlankNamed

theorem hasBlankNamed_iff {s : String} : hasBlankNamed s = true ↔
    ∃ n x, .named n x ∈ Piece.readAll s.toList ∧ allBlank x = true := by
  rw [hasBlankNamed, List.any_eq_true]
  constructor
  · rintro ⟨p, hp, hblank⟩
    cases p with
    | named n x => exact ⟨n, x, hp, hblank⟩
    | unclosed | bare => cases hblank
  · rintro ⟨n, x, hmem, hblank⟩
    exact ⟨.named n x, hmem, hblank⟩

variable {schema : Schema} {o : Options} {seen : Bool} {keys : List String} {p : Piece}
  {ps : List Piece} {f : Field} {n x : List Char}

theorem of_store {name : String} (h : store schema o keys name x = .stored f) :
    f.key ∉ keys ∧ f.text = trimmed x := by
  rw [store] at h
  cases hs : schema.lookup? name with
  | none =>
      rw [hs] at h
      cases h
  | some spec =>
      simp only [hs] at h
      split at h
      case isTrue => cases h
      case isFalse hkey =>
        cases h
        exact ⟨by simpa using hkey, rfl⟩

theorem of_judge (h : judge schema o seen keys p = .stored f) : f.key ∉ keys ∧
    ((∃ n x, p = .named n x ∧ f.text = trimmed x) ∨
      ∃ x, p = .bare x ∧ allBlank x = false ∧ f.text = trimmed x) := by
  cases p with
  | unclosed q s => cases h
  | named n x =>
      rw [judge] at h
      split at h
      · cases h
      · split at h
        · cases h
        · obtain ⟨hkey, htext⟩ := of_store h
          exact ⟨hkey, .inl ⟨n, x, rfl, htext⟩⟩
  | bare x =>
      rw [judge] at h
      split at h
      · cases h
      case isFalse hblank =>
        split at h
        · cases h
        · split at h
          · cases h
          · obtain ⟨hkey, htext⟩ := of_store h
            exact ⟨hkey, .inr ⟨x, rfl, by simpa using hblank, htext⟩⟩

theorem Outcome.problem?_eq_some_iff {r : Outcome} {problem : Problem} :
    r.problem? = some problem ↔ r = .rejected problem := by
  cases r <;> simp [Outcome.problem?]

theorem store_ne_blank (name : String) (x : List Char) : store schema o keys name x ≠ .blank := by
  rw [store]
  cases schema.lookup? name with
  | none => simp
  | some spec =>
      dsimp only
      split <;> simp

def Piece.isWritten : Piece → Bool
  | bare s => !allBlank s
  | _ => true

theorem judge_eq_blank_iff : judge schema o seen keys p = .blank ↔ p.isWritten = false := by
  cases p with
  | unclosed q s => simp [judge, Piece.isWritten]
  | named n x =>
      rw [judge]
      split
      · simp [Piece.isWritten]
      · split <;> simp [Piece.isWritten, store_ne_blank]
  | bare x =>
      rw [judge]
      cases hblank : allBlank x with
      | true => simp [Piece.isWritten, hblank]
      | false =>
          cases o.defaultName with
          | none => simp [Piece.isWritten, hblank]
          | some name => cases seen <;> simp [Piece.isWritten, hblank, store_ne_blank]

theorem exists_judge {r : Outcome} (h : r ∈ outcomes schema o seen keys ps) :
    ∃ p ∈ ps, ∃ seen keys, judge schema o seen keys p = r := by
  induction ps generalizing seen keys with
  | nil => cases h
  | cons p ps ih =>
      rcases List.mem_cons.1 h with rfl | h
      · exact ⟨p, List.mem_cons_self, seen, keys, rfl⟩
      · obtain ⟨q, hq, hjudge⟩ := ih h
        exact ⟨q, List.mem_cons_of_mem p hq, hjudge⟩

theorem exists_piece (h : f ∈ (outcomes schema o seen keys ps).filterMap Outcome.field?) :
    ∃ p ∈ ps, ∃ seen keys, judge schema o seen keys p = .stored f := by
  obtain ⟨r, hr, hf⟩ := List.mem_filterMap.1 h
  rw [Outcome.field?_eq_some_iff] at hf
  exact exists_judge (hf ▸ hr)

theorem exists_rejected {problem : Problem}
    (h : problem ∈ (outcomes schema o seen keys ps).filterMap Outcome.problem?) :
    ∃ p ∈ ps, ∃ seen keys, judge schema o seen keys p = .rejected problem := by
  obtain ⟨r, hr, hproblem⟩ := List.mem_filterMap.1 h
  rw [Outcome.problem?_eq_some_iff] at hproblem
  exact exists_judge (hproblem ▸ hr)

theorem exists_outcome (schema : Schema) (o : Options) (seen : Bool) (keys : List String)
    (hp : p ∈ ps) :
    ∃ seen' keys', judge schema o seen' keys' p ∈ outcomes schema o seen keys ps := by
  induction ps generalizing seen keys with
  | nil => cases hp
  | cons q ps ih =>
      rcases List.mem_cons.1 hp with rfl | hp
      · exact ⟨seen, keys, List.mem_cons_self⟩
      · obtain ⟨seen', keys', hmem⟩ := ih _ _ hp
        exact ⟨seen', keys', List.mem_cons_of_mem _ hmem⟩

theorem stored_keys_distinct :
    (((outcomes schema o seen keys ps).filterMap Outcome.field?).map key).Nodup ∧
      ∀ f ∈ (outcomes schema o seen keys ps).filterMap Outcome.field?, f.key ∉ keys := by
  -- the keys stored before are what the next piece is checked against
  induction ps generalizing seen keys with
  | nil => exact ⟨List.nodup_nil, by simp [outcomes]⟩
  | cons p ps ih =>
      rw [outcomes, List.filterMap_cons]
      cases hf : (judge schema o seen keys p).field? with
      | none => simpa using ih
      | some g =>
          obtain ⟨hnodup, hfresh⟩ := @ih (seen || p.isUnnamed) (keys ++ [g.key])
          have hkey : g.key ∉ keys := (of_judge (Outcome.field?_eq_some_iff.1 hf)).1
          refine ⟨?_, ?_⟩
          · rw [List.map_cons, List.nodup_cons]
            refine ⟨?_, hnodup⟩
            intro hmem
            obtain ⟨f, hmem, he⟩ := List.mem_map.1 hmem
            exact hfresh f hmem (List.mem_append_right keys (by simp [he]))
          · intro f hmem
            rcases List.mem_cons.1 hmem with rfl | hmem
            · exact hkey
            · exact fun h => hfresh f hmem (List.mem_append_left _ h)

theorem eq_of_key_eq {value : String} {f g : Field} (hf : f ∈ (split schema o value).fields)
    (hg : g ∈ (split schema o value).fields) (h : f.key = g.key) : f = g :=
  List.inj_on_of_nodup_map stored_keys_distinct.1 hf hg h

theorem exists_field_of_named {value : String} (hquiet : (split schema o value).problems = [])
    (h : .named n x ∈ Piece.readAll value.toList) :
    ∃ f ∈ (split schema o value).fields, f.text = trimmed x := by
  obtain ⟨seen, keys, hmem⟩ := exists_outcome schema o false [] h
  cases hj : judge schema o seen keys (.named n x) with
  | blank => cases judge_eq_blank_iff.1 hj
  | rejected problem =>
      rw [hj] at hmem
      have hproblem : problem ∈ (split schema o value).problems :=
        List.mem_filterMap.2 ⟨_, hmem, rfl⟩
      rw [hquiet] at hproblem
      cases hproblem
  | stored f =>
      rw [hj] at hmem
      refine ⟨f, List.mem_filterMap.2 ⟨_, hmem, rfl⟩, ?_⟩
      rcases (of_judge hj).2 with ⟨n', x', he, htext⟩ | ⟨x', he, -⟩
      · cases he
        exact htext
      · cases he

end Field

namespace Binding

variable {attr source value : String} {span : Option Span}

theorem parse_of_quiet (h : (parse attr source value span).2 = []) :
    (Field.split schema (options attr span) value).problems = [] ∧
      ∃ b, (parse attr source value span).1 = some b ∧
        ofFields? source (Field.split schema (options attr span) value).fields = some b := by
  rw [parse] at h ⊢
  split at h
  case h_1 b hb => exact ⟨by simpa [Field.Parsed.diagnostics] using h, b, by simp, hb⟩
  case h_2 => simp at h

theorem ofFields?_eq_some_iff {fields : List Field} {b : Binding} :
    ofFields? source fields = some b ↔
      ∃ t, fields.find? (fun f => f.key == targetKey) = some t ∧ t.text ≠ "" ∧
        b = ⟨source, t.text, fields.filter fun f => f.key != targetKey⟩ := by
  rw [ofFields?]
  cases fields.find? fun f => f.key == targetKey with
  | none => simp
  | some t =>
      dsimp only
      split
      case isTrue hempty =>
        constructor
        · intro h
          cases h
        · rintro ⟨_, ht, hne, -⟩
          cases ht
          exact absurd (String.isEmpty_iff.1 hempty) hne
      case isFalse hempty =>
        constructor
        · intro h
          cases h
          exact ⟨t, rfl, by simpa using hempty, rfl⟩
        · rintro ⟨_, ht, -, rfl⟩
          cases ht
          rfl

theorem of_find?_target {fields : List Field} {t : Field}
    (h : fields.find? (fun f => f.key == targetKey) = some t) : t ∈ fields ∧ t.key = targetKey :=
  ⟨List.mem_of_find?_eq_some h, by simpa using List.find?_some h⟩

/-- Read without problems, a value has a property with no code in it just where it has a name with
nothing after it. -/
theorem any_blank_prop (h : (parse attr source value span).2 = []) :
    ∃ b, (parse attr source value span).1 = some b ∧
      (b.props.any fun f => allBlank f.text.toList) = Field.hasBlankNamed value := by
  obtain ⟨hquiet, _, hparse, hb⟩ := parse_of_quiet h
  obtain ⟨t, hfind, htext, rfl⟩ := ofFields?_eq_some_iff.1 hb
  obtain ⟨ht, htarget⟩ := of_find?_target hfind
  have hblank (x : List Char) : allBlank (trimmed x).toList = allBlank x := by
    rw [trimmed, String.toList_ofList, allBlank_trim]
  refine ⟨_, hparse, ?_⟩
  rw [Bool.eq_iff_iff, List.any_eq_true, Field.hasBlankNamed_iff]
  constructor
  · rintro ⟨f, hf, hcode⟩
    obtain ⟨p, hp, seen, keys, hjudge⟩ := Field.exists_piece (List.mem_of_mem_filter hf)
    rcases (Field.of_judge hjudge).2 with ⟨n, x, rfl, hx⟩ | ⟨x, rfl, hfilled, hx⟩
    · exact ⟨n, x, hp, by rwa [hx, hblank] at hcode⟩
    · rw [hx, hblank, hfilled] at hcode
      cases hcode
  · rintro ⟨n, x, hmem, hx⟩
    obtain ⟨f, hf, hftext⟩ := Field.exists_field_of_named hquiet hmem
    -- an empty target would have been a problem
    have hne : f.key ≠ targetKey := by
      intro hkey
      obtain rfl := Field.eq_of_key_eq hf ht (hkey.trans htarget.symm)
      exact htext (by rw [hftext, trimmed, trim_eq_nil hx])
    refine ⟨f, ?_, by rw [hftext, hblank, hx]⟩
    exact List.mem_filter.2 ⟨hf, by simpa using hne⟩

end Binding
end WidgetMarkup
