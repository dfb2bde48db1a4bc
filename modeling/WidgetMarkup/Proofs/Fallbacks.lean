import WidgetMarkup.Coercion
import WidgetMarkup.Proofs.Placeholders

namespace WidgetMarkup

open Text

namespace Interpolation

/-- One of the placeholders that are met from the left has no brace that closes it. -/
inductive LeftOpen : List Char → Prop
  | here {p body : List Char} (hp : ¬marker <:+: p)
      (hbody : ∀ code rest, body = code ++ '\x7d' :: rest → ¬Balanced code) :
      LeftOpen (p ++ marker ++ body)
  | later {p code rest : List Char} (hp : ¬marker <:+: p) (hcode : Balanced code)
      (h : LeftOpen rest) : LeftOpen (p ++ marker ++ (code ++ '\x7d' :: rest))

/-- The first placeholder that is met from the left is closed. -/
def Dynamic (s : List Char) : Prop :=
  ∃ p code rest, s = p ++ marker ++ (code ++ '\x7d' :: rest) ∧ ¬marker <:+: p ∧ Balanced code

variable {s p body : List Char} {ps : List Interpolation}

theorem closing?_eq_none_iff : closing? 0 .outside body = none ↔
    ∀ code rest, body = code ++ '\x7d' :: rest → ¬Balanced code := by
  simp only [Option.eq_none_iff_forall_ne_some, Prod.forall, ne_eq, closing?_eq_some_iff, not_and,
    Text.Balanced]

theorem infix_marker_iff : marker <:+: s ↔ ∃ p body, s = p ++ marker ++ body ∧ ¬marker <:+: p := by
  constructor
  · intro h
    induction s with
    | nil => exact absurd h (by decide)
    | cons c s ih =>
        by_cases hc : marker <+: c :: s
        · obtain ⟨body, hbody⟩ := hc
          exact ⟨[], body, hbody.symm, by decide⟩
        · obtain ⟨p, body, rfl, hp⟩ := ih ((List.infix_cons_iff.1 h).resolve_left hc)
          rw [List.append_assoc] at hc
          exact ⟨c :: p, body, rfl, not_marker_infix_cons hc hp⟩
  · rintro ⟨p, body, rfl, -⟩
    exact List.infix_append p marker body

theorem partsOf?_eq_none_behind (hp : ¬marker <:+: p) :
    partsOf? (p ++ marker ++ body) = none ↔ partsOf? (marker ++ body) = none := by
  rw [List.append_assoc]
  induction p with
  | nil => rfl
  | cons c p ih =>
      have hc : ¬marker <+: c :: (p ++ (marker ++ body)) := not_marker_prefix hp (by simp [marker])
      rw [List.cons_append, partsOf?_cons hc, Option.map_eq_none_iff]
      exact ih fun h => hp (List.infix_cons_iff.2 (.inr h))

theorem LeftOpen.cons {c : Char} (hc : ¬marker <+: c :: s) (h : LeftOpen s) : LeftOpen (c :: s) := by
  cases h with
  | here hp hbody =>
      rw [List.append_assoc] at hc
      exact .here (not_marker_infix_cons hc hp) hbody
  | later hp hcode h =>
      rw [List.append_assoc] at hc
      exact .later (not_marker_infix_cons hc hp) hcode h

theorem leftOpen_iff : LeftOpen s ↔ partsOf? s = none := by
  constructor
  · intro h
    induction h with
    | here hp hbody =>
        rw [partsOf?_eq_none_behind hp]
        exact partsOf?_marker_eq_none (closing?_eq_none_iff.2 hbody)
    | @later p code rest hp hcode _ ih =>
        have hclosed : closing? 0 .outside (code ++ '\x7d' :: rest) = some (code, rest) :=
          closing?_eq_some_iff.2 ⟨rfl, hcode⟩
        rw [partsOf?_eq_none_behind hp]
        exact (partsOf?_marker hclosed).trans (Option.map_eq_none_iff.2 ih)
  · have hnil : ¬marker <:+: [] := by decide
    intro h
    fun_induction partsOf? s with
    | case1 => cases h
    | case2 body hnone => exact .here hnil (closing?_eq_none_iff.1 hnone)
    | case3 body code rest hsome ih =>
        obtain ⟨rfl, hcode⟩ := closing?_eq_some_iff.1 hsome
        exact .later hnil hcode (ih (Option.map_eq_none_iff.1 h))
    | case4 c s hmarker ih =>
        exact (ih (Option.map_eq_none_iff.1 h)).cons (not_marker_prefix_of_ne hmarker)

theorem infix_marker_iff_open_or_dynamic : marker <:+: s ↔ LeftOpen s ∨ Dynamic s := by
  rw [infix_marker_iff]
  constructor
  · rintro ⟨p, body, rfl, hp⟩
    cases hbody : closing? 0 .outside body with
    | none => exact .inl (.here hp (closing?_eq_none_iff.1 hbody))
    | some r =>
        obtain ⟨rfl, hcode⟩ := closing?_eq_some_iff.1 hbody
        exact .inr ⟨p, r.1, r.2, rfl, hp, hcode⟩
  · rintro (h | ⟨p, code, rest, rfl, hp, -⟩)
    · cases h with
      | here hp hbody => exact ⟨_, _, rfl, hp⟩
      | later hp _ _ => exact ⟨_, _, rfl, hp⟩
    · exact ⟨p, _, rfl, hp⟩

theorem parse?_eq_none_iff : parse? s = none ↔ LeftOpen s := by
  rw [leftOpen_iff, parse?]
  split
  case isTrue hs => simp [hs, partsOf?_nil]
  case isFalse => rfl

theorem parse?_of_not_any (h : parse? s = some ps) (hps : ps.any isPlaceholder = false) :
    ¬marker <:+: s ∧ ps = [plain s] := by
  obtain ⟨hcanonical, rfl⟩ := canonical_of_parse? h
  rcases ps with _ | ⟨t | code, ps⟩
  · exact absurd rfl hcanonical.nonempty
  · obtain ⟨hplain, hhead, -⟩ := separated_cons.1 hcanonical.toSeparated
    have hnil : ps = [] := by
      cases ps with
      | nil => rfl
      | cons r ps =>
          have hr : r.isPlaceholder = true := (hhead r rfl).resolve_left (by simp [isPlaceholder])
          rw [List.any_cons, List.any_cons, hr, Bool.true_or, Bool.or_true] at hps
          cases hps
    subst hnil
    have hrender : renderAll [plain t] = t := List.append_nil t
    rw [hrender]
    exact ⟨hplain, rfl⟩
  · simp [isPlaceholder] at hps

theorem any_isPlaceholder_iff (h : parse? s = some ps) :
    ps.any isPlaceholder = true ↔ Dynamic s := by
  have hclosed : ¬LeftOpen s := by
    rw [← parse?_eq_none_iff, h]
    exact Option.some_ne_none ps
  have hdynamic : marker <:+: s ↔ Dynamic s := by
    rw [infix_marker_iff_open_or_dynamic]
    exact or_iff_right hclosed
  rw [← hdynamic]
  constructor
  · intro hany
    by_contra hmarker
    rw [parse?_plain hmarker] at h
    cases h
    cases hany
  · intro hmarker
    cases hany : ps.any isPlaceholder with
    | true => rfl
    | false => exact absurd hmarker (parse?_of_not_any h hany).1

end Interpolation

namespace Coercion

open Interpolation

variable {target : Target} {allowDynamic : Bool} {s : String}

theorem ofText_cases (target : Target) (allowDynamic : Bool) (s : String) :
    LeftOpen s.toList ∧
        ofText target allowDynamic s = ⟨.text s, some (.unterminatedPlaceholder s)⟩ ∨
      ¬LeftOpen s.toList ∧ (allowDynamic = false ∧ Dynamic s.toList) ∧
        ofText target allowDynamic s = ⟨.text s, some (.dynamicNotAllowed s)⟩ ∨
      ¬LeftOpen s.toList ∧ ¬(allowDynamic = false ∧ Dynamic s.toList) ∧
        ∃ parts, parse? s.toList = some parts ∧ ofText target allowDynamic s =
          ⟨match target with
            | .text => concat parts
            | .expression => source s.toList parts, none⟩ := by
  rw [← parse?_eq_none_iff]
  cases h : parse? s.toList with
  | none => exact .inl ⟨rfl, by rw [ofText, h]⟩
  | some parts =>
      have hdynamic : (!allowDynamic && parts.any isPlaceholder) = true ↔
          allowDynamic = false ∧ Dynamic s.toList := by
        rw [Bool.and_eq_true, Bool.not_eq_true', any_isPlaceholder_iff h]
      rw [← hdynamic]
      cases hany : !allowDynamic && parts.any isPlaceholder with
      | true => exact .inr (.inl ⟨by simp, rfl, by rw [ofText, h]; simp [hany]⟩)
      | false =>
          refine .inr (.inr ⟨by simp, by simp, parts, rfl, ?_⟩)
          rw [ofText, h]
          cases target <;> simp [hany]

theorem diagnostics_eq_nil_iff {span : Option Span} {c : Coercion} :
    c.diagnostics span = [] ↔ c.problem = none := by
  rw [diagnostics, Option.toList_eq_nil_iff, Option.map_eq_none_iff]

theorem problem_ofText : (ofText target allowDynamic s).problem ≠ none ↔
    LeftOpen s.toList ∨ allowDynamic = false ∧ Dynamic s.toList := by
  rcases ofText_cases target allowDynamic s with
    ⟨hopen, h⟩ | ⟨hopen, hdynamic, h⟩ | ⟨hopen, hdynamic, parts, -, h⟩ <;> rw [h]
  · simp [hopen]
  · simp [hdynamic]
  · simp [hopen, hdynamic]

theorem expr_ofText_static (s : String) : (ofText .text false s).expr = .text s := by
  rcases ofText_cases .text false s with ⟨-, h⟩ | ⟨-, -, h⟩ | ⟨-, hdynamic, parts, hparts, h⟩ <;>
    rw [h]
  have hany : parts.any isPlaceholder = false := by
    rw [← Bool.not_eq_true, any_isPlaceholder_iff hparts]
    exact fun h => hdynamic ⟨rfl, h⟩
  obtain ⟨-, rfl⟩ := parse?_of_not_any hparts hany
  exact congrArg Expr.text String.ofList_toList

/-- A text that cannot be read as asked is reported once and stands for itself, whatever was read
of it before. Code is never reported. -/
theorem ofValue_falls_back (target : Target) (allowDynamic : Bool) (span : Option Span) :
    (∀ s : String, let c := ofValue target allowDynamic (.text s)
      (c.diagnostics span).length ≤ 1 ∧ (c.diagnostics span ≠ [] → c.expr = .text s) ∧
        (c.diagnostics span ≠ [] ↔
          LeftOpen s.toList ∨ allowDynamic = false ∧ Dynamic s.toList)) ∧
      (∀ s : String, let c := ofValue .text false (.text s)
        c.expr = .text s ∧ (c.diagnostics span ≠ [] ↔ marker <:+: s.toList)) ∧
      ∀ e : Expr, let c := ofValue target allowDynamic (.code e)
        c.expr = e ∧ c.diagnostics span = [] := by
  refine ⟨fun s => ⟨?_, ?_, ?_⟩, fun s => ⟨?_, ?_⟩, fun e => ⟨rfl, rfl⟩⟩
  · rw [diagnostics]
    exact Option.length_toList_le
  · rw [ne_eq, diagnostics_eq_nil_iff, ofValue]
    rcases ofText_cases target allowDynamic s with ⟨-, h⟩ | ⟨-, -, h⟩ | ⟨-, -, parts, -, h⟩ <;>
      rw [h]
    · exact fun _ => rfl
    · exact fun _ => rfl
    · exact fun hnone => absurd rfl hnone
  · rw [ne_eq, diagnostics_eq_nil_iff, ofValue]
    exact problem_ofText
  · exact expr_ofText_static s
  · rw [ne_eq, diagnostics_eq_nil_iff, ofValue, infix_marker_iff_open_or_dynamic]
    exact problem_ofText.trans (by simp)

theorem half_open_stands_for_itself :
    let c := ofValue .text true (.text "a$\x7bb\x7dc$\x7bd")
    c.diagnostics none ≠ [] ∧ c.expr = .text "a$\x7bb\x7dc$\x7bd" := by
  obtain ⟨-, hfallback, hreported⟩ :=
    (ofValue_falls_back .text true none).1 "a$\x7bb\x7dc$\x7bd"
  have hclosed : Balanced ['b'] := balancedFrom_cons.2 ⟨by decide, balancedFrom_nil.2 ⟨rfl, rfl⟩⟩
  have hlast : LeftOpen (['c'] ++ marker ++ ['d']) :=
    .here (by decide) (closing?_eq_none_iff.1 rfl)
  have hopen : LeftOpen "a$\x7bb\x7dc$\x7bd".toList :=
    .later (p := ['a']) (by decide) hclosed hlast
  have hproblem := hreported.2 (.inl hopen)
  exact ⟨hproblem, hfallback hproblem⟩

end Coercion
end WidgetMarkup
