import Mathlib.Data.List.Chain
import WidgetMarkup.Interpolation

namespace WidgetMarkup

namespace Text

def unquoted (q : Quoting) : List Char → List Char
  | [] => []
  | c :: s => if q = .outside then c :: unquoted (q.step c) s else unquoted (q.step c) s

/-- Read behind `depth` open braces, the code closes these and its own, all of its quotes, and
never a brace more. -/
structure BalancedFrom (depth : Nat) (q : Quoting) (code : List Char) : Prop where
  closed : q.after code = .outside
  level : (unquoted q code).count '\x7d' = depth + (unquoted q code).count '\x7b'
  covered : ∀ p, p <+: code →
    (unquoted q p).count '\x7d' ≤ depth + (unquoted q p).count '\x7b'

def Balanced (code : List Char) : Prop := BalancedFrom 0 .outside code

theorem count_unquoted_cons (q : Quoting) (c d : Char) (s : List Char) :
    (unquoted q (c :: s)).count d =
      (if q = .outside ∧ c = d then 1 else 0) + (unquoted (q.step c) s).count d := by
  rw [unquoted]
  by_cases hq : q = .outside
  · rw [if_pos hq, List.count_cons, Nat.add_comm]
    simp [hq]
  · rw [if_neg hq, if_neg (fun h => hq h.1), Nat.zero_add]

end Text

namespace Interpolation

open Text

variable {depth : Nat} {q : Quoting} {c : Char} {s : List Char}

theorem add_depthAfter (hc : ¬(depth = 0 ∧ q = .outside ∧ c = '\x7d')) (n : Nat) :
    depth + ((if q = .outside ∧ c = '\x7b' then 1 else 0) + n) =
      (if q = .outside ∧ c = '\x7d' then 1 else 0) + (depthAfter depth q c + n) := by
  rw [depthAfter]
  by_cases hopen : q = .outside ∧ c = '\x7b'
  · have hclose : ¬(q = .outside ∧ c = '\x7d') := by
      rintro ⟨-, rfl⟩
      exact absurd hopen.2 (by decide)
    rw [if_pos hopen, if_pos hopen, if_neg hclose]
    omega
  · rw [if_neg hopen, if_neg hopen]
    by_cases hclose : q = .outside ∧ c = '\x7d'
    · have hdepth : depth ≠ 0 := fun h => hc ⟨h, hclose⟩
      rw [if_pos hclose, if_pos hclose]
      omega
    · rw [if_neg hclose, if_neg hclose]
      omega

theorem balancedFrom_nil : BalancedFrom depth q [] ↔ depth = 0 ∧ q = .outside := by
  constructor
  · intro h
    have hlevel := h.level
    simp only [unquoted, List.count_nil, Nat.add_zero] at hlevel
    exact ⟨hlevel.symm, h.closed⟩
  · rintro ⟨rfl, rfl⟩
    refine ⟨rfl, rfl, ?_⟩
    intro p hp
    rw [List.prefix_nil.1 hp]
    exact Nat.le_refl _

theorem balancedFrom_cons : BalancedFrom depth q (c :: s) ↔
    ¬(depth = 0 ∧ q = .outside ∧ c = '\x7d') ∧
      BalancedFrom (depthAfter depth q c) (q.step c) s := by
  constructor
  · intro h
    have hc : ¬(depth = 0 ∧ q = .outside ∧ c = '\x7d') := by
      rintro ⟨rfl, rfl, rfl⟩
      exact absurd (h.covered ['\x7d'] (by simp)) (by decide)
    refine ⟨hc, h.closed, ?_, ?_⟩
    · have hlevel := h.level
      rw [count_unquoted_cons, count_unquoted_cons, add_depthAfter hc] at hlevel
      exact Nat.add_left_cancel hlevel
    · intro p hp
      have hcovered := h.covered (c :: p) (List.prefix_cons_inj c |>.2 hp)
      rw [count_unquoted_cons, count_unquoted_cons, add_depthAfter hc] at hcovered
      exact Nat.le_of_add_le_add_left hcovered
  · rintro ⟨hc, h⟩
    refine ⟨h.closed, ?_, ?_⟩
    · rw [count_unquoted_cons, count_unquoted_cons, add_depthAfter hc, h.level]
    · intro p hp
      rcases List.prefix_cons_iff.1 hp with rfl | ⟨t, rfl, ht⟩
      · exact Nat.zero_le _
      · rw [count_unquoted_cons, count_unquoted_cons, add_depthAfter hc]
        exact Nat.add_le_add_left (h.covered t ht) _

/-- The brace that ends a placeholder is the one that follows balanced code. -/
theorem closing?_eq_some_iff {code rest : List Char} :
    closing? depth q s = some (code, rest) ↔
      s = code ++ '\x7d' :: rest ∧ BalancedFrom depth q code := by
  -- each character moves the depth and the quoting from which the rest is balanced
  induction s generalizing depth q code with
  | nil => simp [closing?]
  | cons c s ih =>
      rw [closing?]
      split
      case isTrue hc =>
        obtain ⟨rfl, rfl, rfl⟩ := hc
        constructor
        · intro h
          cases h
          exact ⟨rfl, balancedFrom_nil.2 ⟨rfl, rfl⟩⟩
        · rintro ⟨hs, hbal⟩
          cases code with
          | nil =>
              cases hs
              rfl
          | cons d code =>
              rw [List.cons_append, List.cons_eq_cons] at hs
              exact absurd ⟨rfl, rfl, hs.1.symm⟩ (balancedFrom_cons.1 hbal).1
      case isFalse hc =>
        rw [Option.map_eq_some_iff]
        constructor
        · rintro ⟨⟨code', rest'⟩, hr, he⟩
          cases he
          obtain ⟨rfl, hbal⟩ := ih.1 hr
          exact ⟨rfl, balancedFrom_cons.2 ⟨hc, hbal⟩⟩
        · rintro ⟨hs, hbal⟩
          cases code with
          | nil =>
              rw [List.nil_append, List.cons_eq_cons] at hs
              obtain ⟨hdepth, hq⟩ := balancedFrom_nil.1 hbal
              exact absurd ⟨hdepth, hq, hs.1⟩ hc
          | cons d code =>
              rw [List.cons_append, List.cons_eq_cons] at hs
              obtain ⟨rfl, rfl⟩ := hs
              exact ⟨(code, rest), ih.2 ⟨rfl, (balancedFrom_cons.1 hbal).2⟩, rfl⟩

def marker : List Char := ['$', '\x7b']

def WellFormed : Interpolation → Prop
  | plain s => ¬marker <:+: s
  | placeholder code => Balanced code

/-- Parts of which no two plain ones could be joined and none could be split. -/
structure Separated (ps : List Interpolation) : Prop where
  wellFormed : ∀ p ∈ ps, p.WellFormed
  apart : ps.IsChain fun p r => p.isPlaceholder = true ∨ r.isPlaceholder = true

/-- The form in which a text has just one decomposition. Only the empty text has an empty part. -/
structure Canonical (ps : List Interpolation) : Prop extends Separated ps where
  nonempty : ps ≠ []
  filled : plain [] ∈ ps → ps = [plain []]

def renderAll (ps : List Interpolation) : List Char := ps.flatMap render

variable {p : Interpolation} {ps : List Interpolation}

theorem separated_nil : Separated [] := ⟨by simp, .nil⟩

theorem separated_cons : Separated (p :: ps) ↔ p.WellFormed ∧
    (∀ r ∈ ps.head?, p.isPlaceholder = true ∨ r.isPlaceholder = true) ∧ Separated ps := by
  constructor
  · rintro ⟨hwell, hapart⟩
    rw [List.forall_mem_cons] at hwell
    rw [List.isChain_cons] at hapart
    exact ⟨hwell.1, hapart.1, hwell.2, hapart.2⟩
  · rintro ⟨hp, hhead, hps⟩
    exact ⟨List.forall_mem_cons.2 ⟨hp, hps.wellFormed⟩, List.isChain_cons.2 ⟨hhead, hps.apart⟩⟩

theorem canonical_iff : Canonical ps ↔
    ps = [plain []] ∨ ps ≠ [] ∧ Separated ps ∧ plain [] ∉ ps := by
  constructor
  · intro h
    by_cases hempty : plain [] ∈ ps
    · exact .inl (h.filled hempty)
    · exact .inr ⟨h.nonempty, h.toSeparated, hempty⟩
  · rintro (rfl | ⟨hne, hsep, hempty⟩)
    · refine ⟨separated_cons.2 ⟨?_, by simp, separated_nil⟩, by simp, fun _ => rfl⟩
      simp [WellFormed, marker]
    · exact ⟨hsep, hne, fun h => absurd h hempty⟩

theorem renderAll_cons_plain (c : Char) (ps : List Interpolation) :
    renderAll (cons c ps) = c :: renderAll ps := by
  rcases ps with _ | ⟨p | code, ps⟩ <;> rfl

theorem not_marker_infix_cons {t : List Char} (hc : ¬marker <+: c :: (s ++ t))
    (hs : ¬marker <:+: s) : ¬marker <:+: c :: s := by
  rw [List.infix_cons_iff, not_or]
  exact ⟨fun h => hc (h.trans (List.prefix_append (c :: s) t)), hs⟩

theorem separated_cons_plain (h : Separated ps) (hc : ¬marker <+: c :: renderAll ps) :
    Separated (cons c ps) := by
  have hchar : ¬marker <:+: [c] := by
    intro hinfix
    exact absurd hinfix.length_le (by simp [marker])
  rcases ps with _ | ⟨s | code, ps⟩
  · exact separated_cons.2 ⟨hchar, by simp, h⟩
  · obtain ⟨hs, hhead, hps⟩ := separated_cons.1 h
    exact separated_cons.2 ⟨not_marker_infix_cons hc hs, hhead, hps⟩
  · exact separated_cons.2 ⟨hchar, by simp [isPlaceholder], h⟩

theorem plain_nil_notMem_cons (h : plain [] ∉ ps) : plain [] ∉ cons c ps := by
  rcases ps with _ | ⟨s | code, ps⟩
  · simp [cons]
  · simpa [cons] using fun hmem => h (List.mem_cons_of_mem _ hmem)
  · simpa [cons] using h

theorem partsOf?_nil : partsOf? [] = some [] := by rw [partsOf?]

theorem partsOf?_marker {body code rest : List Char}
    (h : closing? 0 .outside body = some (code, rest)) :
    partsOf? ('$' :: '\x7b' :: body) = (partsOf? rest).map (placeholder code :: ·) := by
  rw [partsOf?]
  split
  case h_1 hnone => rw [hnone] at h; cases h
  case h_2 code' rest' hsome =>
    rw [hsome] at h
    cases h
    rfl

theorem partsOf?_marker_eq_none {body : List Char} (h : closing? 0 .outside body = none) :
    partsOf? ('$' :: '\x7b' :: body) = none := by
  rw [partsOf?]
  split
  case h_1 => rfl
  case h_2 code rest hsome =>
    rw [hsome] at h
    cases h

theorem not_marker_prefix_of_ne (h : ∀ body, c = '$' → s = '\x7b' :: body → False) :
    ¬marker <+: c :: s := by
  rintro ⟨body, hbody⟩
  cases hbody
  exact h body rfl rfl

theorem partsOf?_cons (h : ¬marker <+: c :: s) :
    partsOf? (c :: s) = (partsOf? s).map (cons c) := by
  rw [partsOf?]
  rintro body rfl rfl
  exact h (List.prefix_append marker body)

theorem separated_of_partsOf? (h : partsOf? s = some ps) :
    renderAll ps = s ∧ Separated ps ∧ plain [] ∉ ps := by
  fun_induction partsOf? s generalizing ps with
  | case1 =>
      cases h
      exact ⟨rfl, separated_nil, by simp⟩
  | case2 body hnone => cases h
  | case3 body code rest hsome ih =>
      obtain ⟨qs, hqs, rfl⟩ := Option.map_eq_some_iff.1 h
      obtain ⟨hrender, hsep, hempty⟩ := ih hqs
      obtain ⟨hbody, hbal⟩ := closing?_eq_some_iff.1 hsome
      refine ⟨?_, separated_cons.2 ⟨hbal, by simp [isPlaceholder], hsep⟩, by simpa using hempty⟩
      rw [hbody, ← hrender]
      simp [renderAll, render]
  | case4 c s hmarker ih =>
      obtain ⟨qs, hqs, rfl⟩ := Option.map_eq_some_iff.1 h
      obtain ⟨hrender, hsep, hempty⟩ := ih hqs
      have hc : ¬marker <+: c :: s := not_marker_prefix_of_ne hmarker
      refine ⟨?_, separated_cons_plain hsep (by rwa [hrender]), plain_nil_notMem_cons hempty⟩
      rw [renderAll_cons_plain, hrender]

theorem not_marker_prefix {t : List Char} (hs : ¬marker <:+: c :: s) (ht : t.head? ≠ some '\x7b') :
    ¬marker <+: c :: (s ++ t) := by
  rintro ⟨body, hbody⟩
  rw [marker, List.cons_append, List.cons_append, List.nil_append, List.cons_eq_cons] at hbody
  obtain ⟨rfl, hbody⟩ := hbody
  cases s with
  | nil =>
      -- a dollar sign that ends the stretch has no brace behind it
      rw [List.nil_append] at hbody
      exact ht (by rw [← hbody]; rfl)
  | cons d s =>
      rw [List.cons_append, List.cons_eq_cons] at hbody
      obtain ⟨rfl, -⟩ := hbody
      exact hs (List.prefix_append marker s).isInfix

theorem partsOf?_plain_append {t : List Char} (hs : ¬marker <:+: s) (hne : s ≠ [])
    (ht : partsOf? t = some ps) (hps : ∀ r ∈ ps.head?, r.isPlaceholder = true)
    (hhead : t.head? ≠ some '\x7b') : partsOf? (s ++ t) = some (plain s :: ps) := by
  induction s with
  | nil => exact absurd rfl hne
  | cons c s ih =>
      have htail : ¬marker <:+: s := fun h => hs (List.infix_cons_iff.2 (.inr h))
      have hc : ¬marker <+: c :: (s ++ t) := not_marker_prefix hs hhead
      rw [List.cons_append, partsOf?_cons hc]
      by_cases hnil : s = []
      · subst s
        rw [List.nil_append, ht]
        rcases ps with _ | ⟨u | code, ps⟩
        · rfl
        · exact absurd (hps (plain u) rfl) (by simp [isPlaceholder])
        · rfl
      · rw [ih htail hnil]
        rfl

theorem partsOf?_renderAll (h : Separated ps) (hempty : plain [] ∉ ps) :
    partsOf? (renderAll ps) = some ps := by
  induction ps with
  | nil => exact partsOf?_nil
  | cons p ps ih =>
      obtain ⟨hp, hhead, hps⟩ := separated_cons.1 h
      rw [List.mem_cons, not_or] at hempty
      have hrest := ih hps hempty.2
      cases p with
      | placeholder code =>
          have hclose : closing? 0 .outside (code ++ '\x7d' :: renderAll ps) =
              some (code, renderAll ps) := closing?_eq_some_iff.2 ⟨rfl, hp⟩
          have htext : renderAll (placeholder code :: ps) =
              '$' :: '\x7b' :: (code ++ '\x7d' :: renderAll ps) := by
            simp [renderAll, render]
          rw [htext, partsOf?_marker hclose, hrest]
          rfl
      | plain s =>
          have hnext : ∀ r ∈ ps.head?, r.isPlaceholder = true := fun r hr =>
            (hhead r hr).resolve_left (by simp [isPlaceholder])
          have hne : s ≠ [] := fun hs => hempty.1 (by rw [hs])
          refine partsOf?_plain_append hp hne hrest hnext ?_
          rcases ps with _ | ⟨u | code, ps⟩
          · simp
          · exact absurd (hnext (plain u) rfl) (by simp [isPlaceholder])
          · simp [render]

theorem partsOf?_eq_some_iff : partsOf? s = some ps ↔
    renderAll ps = s ∧ Separated ps ∧ plain [] ∉ ps := by
  constructor
  · exact separated_of_partsOf?
  · rintro ⟨rfl, hsep, hempty⟩
    exact partsOf?_renderAll hsep hempty

theorem renderAll_eq_nil (hempty : plain [] ∉ ps) (h : renderAll ps = []) : ps = [] := by
  rcases ps with _ | ⟨s | code, ps⟩
  · rfl
  · rw [renderAll, List.flatMap_cons, List.append_eq_nil_iff] at h
    obtain ⟨rfl, -⟩ : s = [] ∧ _ := h
    exact absurd List.mem_cons_self hempty
  · cases h

theorem canonical_of_parse? (h : parse? s = some ps) : Canonical ps ∧ renderAll ps = s := by
  rw [parse?] at h
  split at h
  case isTrue hs =>
    cases h
    exact ⟨canonical_iff.2 (.inl rfl), hs.symm⟩
  case isFalse hs =>
    obtain ⟨rfl, hsep, hempty⟩ := partsOf?_eq_some_iff.1 h
    refine ⟨canonical_iff.2 (.inr ⟨?_, hsep, hempty⟩), rfl⟩
    rintro rfl
    exact hs rfl

theorem parse?_renderAll (h : Canonical ps) : parse? (renderAll ps) = some ps := by
  rw [parse?]
  rcases canonical_iff.1 h with rfl | ⟨hne, hsep, hempty⟩
  · rfl
  · rw [if_neg (fun hs => hne (renderAll_eq_nil hempty hs)), partsOf?_renderAll hsep hempty]

theorem parse?_plain (h : ¬marker <:+: s) : parse? s = some [plain s] := by
  have hcanonical : Canonical [plain s] := by
    refine ⟨separated_cons.2 ⟨h, by simp, separated_nil⟩, by simp, ?_⟩
    intro hempty
    rw [List.mem_singleton.1 hempty]
  have hrender : renderAll [plain s] = s := List.append_nil s
  rw [← hrender, parse?_renderAll hcanonical, hrender]

/-- Reading a text gives the one canonical list of parts that is written like the text, and fails
just when there is none. -/
theorem parse?_decodes (s : List Char) :
    (∀ ps, parse? s = some ps ↔ Canonical ps ∧ renderAll ps = s) ∧
      (parse? s = none ↔ ¬∃ ps, Canonical ps ∧ renderAll ps = s) := by
  have hsome : ∀ ps, parse? s = some ps ↔ Canonical ps ∧ renderAll ps = s := by
    intro ps
    refine ⟨canonical_of_parse?, ?_⟩
    rintro ⟨hps, rfl⟩
    exact parse?_renderAll hps
  refine ⟨hsome, ?_⟩
  rw [Option.eq_none_iff_forall_ne_some, not_exists]
  exact forall_congr' fun ps => not_congr (hsome ps)

end Interpolation
end WidgetMarkup
