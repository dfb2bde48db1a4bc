import WidgetMarkup.Coercion
import WidgetMarkup.Proofs.Placeholders
import WidgetMarkup.Proofs.Trimming

namespace WidgetMarkup

open Text

namespace Interpolation

variable {depth : Nat} {q : Quoting} {s w code : List Char}

theorem isSome_parse? (s : List Char) : (parse? s).isSome = (partsOf? s).isSome := by
  rw [parse?]
  split
  case isTrue hs => rw [hs, partsOf?_nil]; rfl
  case isFalse => rfl

theorem closing?_append (hw : '\x7d' ∉ w) :
    closing? depth q (s ++ w) = (closing? depth q s).map fun r => (r.1, r.2 ++ w) := by
  induction s generalizing depth q with
  | nil =>
      cases h : closing? depth q w with
      | none => exact h
      | some r => exact absurd (eq_append_of_closing? h ▸ by simp) hw
  | cons c s ih =>
      rw [List.cons_append, closing?, closing?]
      split
      case isTrue => rfl
      case isFalse => rw [ih, Option.map_map, Option.map_map]; rfl

theorem isSome_partsOf?_margin (hw : '$' ∉ w) :
    (partsOf? (w ++ s)).isSome = (partsOf? s).isSome := by
  induction w with
  | nil => rfl
  | cons c w ih =>
      rw [List.mem_cons, not_or] at hw
      have hc : ¬marker <+: c :: (w ++ s) := fun h => hw.1 (List.cons_prefix_cons.1 h).1
      rw [List.cons_append, partsOf?_cons hc, Option.isSome_map, ih hw.2]

theorem isSome_partsOf?_append (hopen : '\x7b' ∉ w) (hclose : '\x7d' ∉ w) :
    (partsOf? (s ++ w)).isSome = (partsOf? s).isSome := by
  have hplain : ¬marker <:+: w := fun h => hopen (h.subset (by simp [marker]))
  fun_induction partsOf? s with
  | case1 => rw [List.nil_append, ← isSome_parse?, parse?_plain hplain]; rfl
  | case2 body hnone =>
      have hbody : closing? 0 .outside (body ++ w) = none := by
        rw [closing?_append hclose, hnone, Option.map_none]
      rw [List.cons_append, List.cons_append, partsOf?_marker_eq_none hbody]
  | case3 body code rest hsome ih =>
      have hbody : closing? 0 .outside (body ++ w) = some (code, rest ++ w) := by
        rw [closing?_append hclose, hsome, Option.map_some]
      rw [List.cons_append, List.cons_append, partsOf?_marker hbody, Option.isSome_map,
        Option.isSome_map, ih]
  | case4 c s hmarker ih =>
      have hc : ¬marker <+: c :: (s ++ w) := by
        rintro ⟨body, hbody⟩
        rw [marker, List.cons_append, List.cons_append, List.nil_append, List.cons_eq_cons] at hbody
        obtain ⟨rfl, hbody⟩ := hbody
        cases s with
        | nil => exact hopen (by rw [← List.nil_append w, ← hbody]; exact List.mem_cons_self)
        | cons d s =>
            rw [List.cons_append, List.cons_eq_cons] at hbody
            exact hmarker s rfl (by rw [← hbody.1])
      rw [List.cons_append, partsOf?_cons hc, Option.isSome_map, Option.isSome_map, ih]

theorem isSome_parse?_trim (s : List Char) : (parse? (trim s)).isSome = (parse? s).isSome := by
  obtain ⟨p, w, hs, hp, hw⟩ := exists_margins s
  rw [isSome_parse?, isSome_parse?]
  conv => rhs; rw [hs]
  rw [List.append_assoc, isSome_partsOf?_margin (notMem_of_allBlank hp rfl),
    isSome_partsOf?_append (notMem_of_allBlank hw rfl) (notMem_of_allBlank hw rfl)]

theorem parse?_eq_placeholder_iff :
    parse? s = some [placeholder code] ↔ s = render (placeholder code) ∧ Balanced code := by
  have hcanonical : Canonical [placeholder code] ↔ Balanced code := by
    rw [canonical_iff, separated_cons]
    simp [WellFormed, separated_nil]
  have hrender : renderAll [placeholder code] = render (placeholder code) := List.append_nil _
  rw [(parse?_decodes s).1, hcanonical, hrender, and_comm, eq_comm]

theorem trimmed_placeholder (code : List Char) : Trimmed (render (placeholder code)) where
  head := rfl
  last := by
    rw [render, List.getLast?_concat]
    rfl

end Interpolation

namespace Coercion

open Interpolation

variable {s : String} {parts : List Interpolation}

theorem ofValue_expression (h : parse? s.toList = some parts) :
    ofValue .expression true (.text s) = ⟨source s.toList parts, none⟩ := by
  rw [ofValue, ofText, h]
  rfl

theorem ofValue_placeholder {code : List Char} (h : parse? s.toList = some [.placeholder code]) :
    ofValue .expression true (.text s) = ⟨.raw (trimmed code), none⟩ := by
  rw [ofValue_expression h, source]

theorem ofValue_source (h : (parse? s.toList).isSome)
    (hcode : ∀ code, parse? s.toList ≠ some [.placeholder code]) :
    ofValue .expression true (.text s) = ⟨.raw (trimmed s.toList), none⟩ := by
  obtain ⟨parts, hparts⟩ := Option.isSome_iff_exists.1 h
  rw [ofValue_expression hparts, source]
  rintro code rfl
  exact hcode code hparts

theorem ofValue_margin (h : (parse? s.toList).isSome) (hs : ¬Trimmed s.toList) :
    ofValue .expression true (.text s) = ⟨.raw (trimmed s.toList), none⟩ := by
  apply ofValue_source h
  intro code hcode
  rw [(parse?_eq_placeholder_iff.1 hcode).1] at hs
  exact hs (trimmed_placeholder code)

theorem problem_ofValue_expression (h : (parse? s.toList).isSome) :
    (ofValue .expression true (.text s)).problem = none := by
  obtain ⟨parts, hparts⟩ := Option.isSome_iff_exists.1 h
  rw [ofValue_expression hparts]

theorem toList_trimmed (s : List Char) : (trimmed s).toList = trim s := String.toList_ofList

theorem isSome_parse?_trimmed (h : (parse? s.toList).isSome) :
    (parse? (trimmed s.toList).toList).isSome := by
  rw [toList_trimmed, isSome_parse?_trim, h]

theorem ofValue_trimmed_source (h : (parse? s.toList).isSome)
    (hcode : ∀ code, parse? (trim s.toList) ≠ some [.placeholder code]) :
    ofValue .expression true (.text (trimmed s.toList)) = ⟨.raw (trimmed s.toList), none⟩ := by
  have htwice : trimmed (trimmed s.toList).toList = trimmed s.toList := by
    rw [toList_trimmed, trimmed, trim_of_trimmed (trimmed_trim s.toList), trimmed]
  rw [ofValue_source (isSome_parse?_trimmed h) (by rwa [toList_trimmed]), htwice]

theorem trimmed_ne_render (code : List Char) :
    trimmed code ≠ String.ofList (render (.placeholder code)) := by
  intro h
  obtain ⟨p, w, hcode, -, -⟩ := exists_margins code
  have htrim : (trim code).length = (render (.placeholder code)).length := by
    rw [String.ofList_injective h]
  have hlength := congrArg List.length hcode
  simp only [List.length_append, render, List.length_cons, List.length_nil] at hlength htrim
  omega

/-- The expression of a text beside that of the text without its blank margins. The two are equal but
for a single placeholder with a margin, which is taken for code as it is written. -/
theorem expression_of_margins (s : String) (h : (parse? s.toList).isSome) :
    let padded := ofValue .expression true (.text s)
    let bare := ofValue .expression true (.text (trimmed s.toList))
    padded.problem = none ∧ bare.problem = none ∧
      (∀ code, parse? (trim s.toList) = some [.placeholder code] → bare.expr = .raw (trimmed code)) ∧
      ((∀ code, parse? (trim s.toList) ≠ some [.placeholder code]) →
        bare.expr = .raw (trimmed s.toList)) ∧
      padded.expr = (if Trimmed s.toList then bare.expr else .raw (trimmed s.toList)) ∧
      (padded.expr = bare.expr ↔
        Trimmed s.toList ∨ ∀ code, parse? (trim s.toList) ≠ some [.placeholder code]) := by
  intro padded bare
  have hsingle (code : List Char) (hcode : parse? (trim s.toList) = some [.placeholder code]) :
      bare.expr = .raw (trimmed code) := by
    rw [← toList_trimmed] at hcode
    exact congrArg expr (ofValue_placeholder hcode)
  have hother (hcode : ∀ code, parse? (trim s.toList) ≠ some [.placeholder code]) :
      bare.expr = .raw (trimmed s.toList) := congrArg expr (ofValue_trimmed_source h hcode)
  have hsame (hs : Trimmed s.toList) : padded.expr = bare.expr := by
    have htext : trimmed s.toList = s := by rw [trimmed, trim_of_trimmed hs, String.ofList_toList]
    simp only [padded, bare, htext]
  have hkept (hs : ¬Trimmed s.toList) : padded.expr = .raw (trimmed s.toList) :=
    congrArg expr (ofValue_margin h hs)
  refine ⟨problem_ofValue_expression h, problem_ofValue_expression (isSome_parse?_trimmed h),
    hsingle, hother, ?_, ?_⟩
  · split
    case isTrue hs => exact hsame hs
    case isFalse hs => exact hkept hs
  · constructor
    · intro heq
      by_contra hne
      obtain ⟨hs, hcode⟩ := not_or.1 hne
      obtain ⟨code, hcode⟩ := not_forall_not.1 hcode
      -- the placeholder and its code would be written alike
      rw [hkept hs, hsingle code hcode, trimmed, (parse?_eq_placeholder_iff.1 hcode).1] at heq
      exact trimmed_ne_render code (Expr.raw.inj heq).1.symm
    · rintro (hs | hcode)
      · exact hsame hs
      · by_cases hs : Trimmed s.toList
        · exact hsame hs
        · rw [hkept hs, hother hcode]

theorem object_read_with_margins : (parse? " \x7bfoo: 1\x7d ".toList).isSome ∧
    (ofValue .expression true (.text " \x7bfoo: 1\x7d ")).expr = .raw "\x7bfoo: 1\x7d" ∧
    (ofValue .expression true (.text "\x7bfoo: 1\x7d")).expr = .raw "\x7bfoo: 1\x7d" := by
  have hplain : ¬marker <:+: " \x7bfoo: 1\x7d ".toList := fun h =>
    absurd (h.subset List.mem_cons_self) (by decide)
  have htrim : trim " \x7bfoo: 1\x7d ".toList = "\x7bfoo: 1\x7d".toList := by decide
  have htrimmed : trimmed " \x7bfoo: 1\x7d ".toList = "\x7bfoo: 1\x7d" := by
    rw [trimmed, htrim, String.ofList_toList]
  have hsome : (parse? " \x7bfoo: 1\x7d ".toList).isSome := by
    rw [parse?_plain hplain]
    rfl
  have hcode : ∀ code, parse? "\x7bfoo: 1\x7d".toList ≠ some [.placeholder code] := by
    intro code hcode
    have hhead : some '\x7b' = some '$' := congrArg List.head? (parse?_eq_placeholder_iff.1 hcode).1
    cases hhead
  obtain ⟨-, -, -, hbare, -, hequal⟩ := expression_of_margins " \x7bfoo: 1\x7d " hsome
  rw [htrim, htrimmed] at hbare hequal
  exact ⟨hsome, (hequal.2 (.inr hcode)).trans (hbare hcode), hbare hcode⟩

/-- A blank in front of a placeholder turns the placeholder itself into code. -/
theorem placeholder_kept_in_code : (parse? " $\x7ba\x7d".toList).isSome ∧
    trimmed " $\x7ba\x7d".toList = "$\x7ba\x7d" ∧
    ofValue .expression true (.text " $\x7ba\x7d") = ⟨.raw "$\x7ba\x7d", none⟩ ∧
    ofValue .expression true (.text "$\x7ba\x7d") = ⟨.raw "a", none⟩ ∧
    (ofValue .expression true (.text " $\x7ba\x7d")).expr ≠
      (ofValue .expression true (.text "$\x7ba\x7d")).expr := by
  have hclosing : closing? 0 .outside ['a', '\x7d'] = some (['a'], []) := rfl
  have hparse : parse? "$\x7ba\x7d".toList = some [.placeholder ['a']] :=
    parse?_eq_placeholder_iff.2 ⟨rfl, (closing?_eq_some_iff.1 hclosing).2⟩
  have htrim : trim " $\x7ba\x7d".toList = "$\x7ba\x7d".toList := by decide
  have hsome : (parse? " $\x7ba\x7d".toList).isSome := by
    rw [← isSome_parse?_trim, htrim, hparse]
    rfl
  have htrimmed : trimmed " $\x7ba\x7d".toList = "$\x7ba\x7d" := by
    rw [trimmed, htrim, String.ofList_toList]
  have hpadded := ofValue_margin hsome (by decide)
  have hbare := ofValue_placeholder hparse
  rw [htrimmed] at hpadded
  refine ⟨hsome, htrimmed, hpadded, hbare, ?_⟩
  rw [hpadded, hbare]
  intro heq
  exact absurd (Expr.raw.inj heq).1 (by decide)

end Coercion
end WidgetMarkup
