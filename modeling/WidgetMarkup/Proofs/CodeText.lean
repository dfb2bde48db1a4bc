import WidgetMarkup.Interpolation
import WidgetMarkup.Json.Quoted
import WidgetMarkup.Proofs.Pieces

namespace WidgetMarkup

namespace Text

section Avoids

variable {σ : Type} (step : σ → Char → σ) (home : σ) {p : Char → Bool}

/-- A reader that goes through the text meets no character of the class `p` in its state `home`. -/
def Avoids (p : Char → Bool) : σ → List Char → Prop
  | _, [] => True
  | q, c :: s => (q = home → p c = false) ∧ Avoids p (step q c) s

theorem avoids_append {q : σ} {s t : List Char} : Avoids step home p q (s ++ t) ↔
    Avoids step home p q s ∧ Avoids step home p (s.foldl step q) t := by
  induction s generalizing q with
  | nil => simp [Avoids]
  | cons c s ih => rw [List.cons_append, Avoids, Avoids, ih, List.foldl_cons, and_assoc]

theorem avoids_of_forall {s : List Char} (h : ∀ c ∈ s, p c = false) (q : σ) :
    Avoids step home p q s := by
  induction s generalizing q with
  | nil => trivial
  | cons c s ih =>
      rw [List.forall_mem_cons] at h
      exact ⟨fun _ => h.1, ih h.2 (step q c)⟩

variable {step home}

theorem Avoids.mono {p' : Char → Bool} (hp : ∀ c, p c = true → p' c = true) {q : σ} {s : List Char}
    (h : Avoids step home p' q s) : Avoids step home p q s := by
  induction s generalizing q with
  | nil => trivial
  | cons c s ih =>
      refine ⟨fun hq => ?_, ih h.2⟩
      rw [← Bool.not_eq_true]
      intro hc
      have hc' := hp c hc
      rw [h.1 hq] at hc'
      cases hc'

theorem Avoids.of_append_cons {q : σ} {a b : List Char} {c : Char}
    (h : Avoids step home p q (a ++ c :: b)) (ha : a.foldl step q = home) : p c = false :=
  ((avoids_append step home).1 h).2.1 ha

end Avoids

abbrev Sealed (q : Quoting) (s : List Char) : Prop :=
  Avoids Quoting.step .outside (fun _ => true) q s

theorem sealed_cons {q : Quoting} {c : Char} {s : List Char} :
    Sealed q (c :: s) ↔ q ≠ .outside ∧ Sealed (q.step c) s := by
  simp [Avoids]

theorem Sealed.avoids {p : Char → Bool} {q : Quoting} {s : List Char} (h : Sealed q s) :
    Avoids Quoting.step .outside p q s := by
  induction s generalizing q with
  | nil => trivial
  | cons c s ih =>
      rw [sealed_cons] at h
      exact ⟨fun hq => absurd hq h.1, ih h.2⟩

theorem step_digitChar : ∀ n < 16,
    (Quoting.inside '\x22').step (Nat.digitChar n) = .inside '\x22' := by decide

theorem sealed_escaped (c : Char) : Sealed (.inside '\x22') (Json.escaped c) ∧
    (Quoting.inside '\x22').after (Json.escaped c) = .inside '\x22' := by
  rw [Json.escaped]
  split
  case isTrue => simp [Avoids, Quoting.step]
  case isFalse hc =>
    rw [Bool.or_eq_true, beq_iff_eq, beq_iff_eq, not_or] at hc
    split
    case h_1 => simp [Avoids, Quoting.step]
    case h_2 =>
      split
      case isTrue hcontrol =>
        have hhigh := step_digitChar (c.toNat / 16) (by omega)
        have hlow := step_digitChar (c.toNat % 16) (by omega)
        have hzero : (Quoting.inside '\x22').step '0' = .inside '\x22' := rfl
        have hslash : (Quoting.inside '\x22').step '\\' = .escaped '\x22' := rfl
        have hletter : (Quoting.escaped '\x22').step 'u' = .inside '\x22' := rfl
        simp [Avoids, hslash, hletter, hzero, hhigh, hlow]
      case isFalse => simp [Avoids, Quoting.step, hc]

theorem sealed_body (v : List Char) :
    Sealed (.inside '\x22') (v.flatMap Json.escaped ++ ['\x22']) ∧
      (Quoting.inside '\x22').after (v.flatMap Json.escaped ++ ['\x22']) = .outside := by
  induction v with
  | nil => simp [Avoids, Quoting.step]
  | cons c v ih =>
      obtain ⟨hsealed, hafter⟩ := sealed_escaped c
      rw [List.flatMap_cons, List.append_assoc, Quoting.after_append, hafter]
      refine ⟨(avoids_append _ _).2 ⟨hsealed, ?_⟩, ih.2⟩
      rw [← Quoting.after, hafter]
      exact ih.1

def brackets : List (Char × Char) := [('(', ')'), ('[', ']'), ('\x7b', '\x7d')]

def isPlain (c : Char) : Bool := isInert c && brackets.all fun b => c != b.1 && c != b.2

/-- Texts that are made of plain characters, string literals and groups in brackets. -/
inductive Code : List Char → Prop
  | nil : Code []
  | plain {c : Char} {s : List Char} (hc : isPlain c = true) (hs : Code s) : Code (c :: s)
  | literal (v : List Char) {s : List Char} (hs : Code s) : Code (Json.quoted v ++ s)
  | group {b : Char × Char} {s t : List Char} (hb : b ∈ brackets) (hs : Code s) (ht : Code t) :
      Code (b.1 :: (s ++ b.2 :: t))

theorem isInert_of_isPlain {c : Char} (h : isPlain c = true) : isInert c = true := by
  rw [isPlain, Bool.and_eq_true] at h
  exact h.1

theorem isInert_of_mem_brackets {b : Char × Char} (hb : b ∈ brackets) :
    isInert b.1 = true ∧ isInert b.2 = true := by
  revert b
  decide

theorem ne_of_isPlain {c d : Char} (h : isPlain c = true) (hd : isPlain d = false) : c ≠ d := by
  rintro rfl
  rw [h] at hd
  cases hd

theorem isPlain_of_class {p : Char → Bool}
    (hp : (marks ++ brackets.flatMap fun b => [b.1, b.2]).any p = false) {c : Char}
    (h : p c = true) : isPlain c = true := by
  rw [List.any_append, Bool.or_eq_false_iff, List.any_flatMap] at hp
  rw [isPlain, isInert_of_class hp.1 h, Bool.true_and, List.all_eq_true]
  intro b hb
  have hb' := List.any_eq_false.1 hp.2 b hb
  simp only [List.any_cons, List.any_nil, Bool.or_false, Bool.or_eq_true, not_or] at hb'
  have hleft : c ≠ b.1 := fun he => hb'.1 (he ▸ h)
  have hright : c ≠ b.2 := fun he => hb'.2 (he ▸ h)
  simp [hleft, hright]

namespace Code

variable {s t : List Char}

theorem append (hs : Code s) (ht : Code t) : Code (s ++ t) := by
  induction hs with
  | nil => exact ht
  | plain hc _ ih => exact .plain hc ih
  | literal v _ ih =>
      rw [List.append_assoc]
      exact .literal v ih
  | group hb hs _ _ ih =>
      rw [List.cons_append, List.append_assoc, List.cons_append]
      exact .group hb hs ih

theorem of_all_isPlain (h : s.all isPlain = true) : Code s := by
  induction s with
  | nil => exact .nil
  | cons c s ih =>
      rw [List.all_cons, Bool.and_eq_true] at h
      exact .plain h.1 (ih h.2)

theorem quoted (v : List Char) : Code (Json.quoted v) := by
  rw [← List.append_nil (Json.quoted v)]
  exact .literal v .nil

theorem bracketed {b : Char × Char} (hb : b ∈ brackets) (hs : Code s) :
    Code (b.1 :: s ++ [b.2]) := .group hb hs .nil

theorem intercalate {ts : List (List Char)} (hs : Code s) (hts : ∀ u ∈ ts, Code u) :
    Code (s.intercalate ts) := by
  induction ts with
  | nil => exact .nil
  | cons t ts ih =>
      rw [List.forall_mem_cons] at hts
      cases ts with
      | nil =>
          rw [List.intercalate_singleton]
          exact hts.1
      | cons u us =>
          rw [List.intercalate_cons_cons]
          exact (hts.1.append hs).append (ih hts.2)

theorem after (h : Code s) : Quoting.outside.after s = .outside := by
  induction h with
  | nil => rfl
  | plain hc _ ih => rw [Quoting.after_cons, Quoting.step_of_isInert (isInert_of_isPlain hc), ih]
  | literal v _ ih =>
      have hopen : Quoting.outside.step '\x22' = .inside '\x22' := rfl
      rw [Quoting.after_append, Json.quoted, List.cons_append, Quoting.after_cons, hopen,
        (sealed_body v).2, ih]
  | group hb _ _ ihs iht =>
      obtain ⟨hleft, hright⟩ := isInert_of_mem_brackets hb
      rw [Quoting.after_cons, Quoting.step_of_isInert hleft, Quoting.after_append, ihs,
        Quoting.after_cons, Quoting.step_of_isInert hright, iht]

/-- Outside its string literals code has none of the marks but their quotes. -/
theorem avoids {p : Char → Bool} (hinert : ∀ c, isInert c = true → p c = false)
    (hquote : p '\x22' = false) (h : Code s) : Avoids Quoting.step .outside p .outside s := by
  induction h with
  | nil => trivial
  | plain hc _ ih =>
      have hc := isInert_of_isPlain hc
      refine ⟨fun _ => hinert _ hc, ?_⟩
      rwa [Quoting.step_of_isInert hc]
  | literal v _ ih =>
      refine (avoids_append _ _).2 ⟨⟨fun _ => hquote, (sealed_body v).1.avoids⟩, ?_⟩
      rw [← Quoting.after, (quoted v).after]
      exact ih
  | group hb hs _ ihs iht =>
      obtain ⟨hleft, hright⟩ := isInert_of_mem_brackets hb
      refine ⟨fun _ => hinert _ hleft, ?_⟩
      rw [Quoting.step_of_isInert hleft, avoids_append, ← Quoting.after, hs.after]
      refine ⟨ihs, fun _ => hinert _ hright, ?_⟩
      rwa [Quoting.step_of_isInert hright]

theorem ne_of_append_cons {a b : List Char} {c : Char} (h : Code (a ++ c :: b))
    (hc : c ∈ marks) (hquote : c ≠ '\x22') : Quoting.outside.after a ≠ .outside := by
  intro ha
  have havoids : Avoids Quoting.step .outside (· == c) .outside (a ++ c :: b) := by
    refine h.avoids (fun d hd => ?_) ?_
    · exact beq_false_of_ne (ne_of_isInert hd hc)
    · exact beq_false_of_ne hquote.symm
  simpa using havoids.of_append_cons ha

theorem unsplit (h : Code s) : Field.Unsplit .outside s := by
  rintro a b rfl
  exact h.ne_of_append_cons (by decide) (by decide)

theorem cutName?_eq_none (h : Code s) : Field.cutName? .outside none s = none := by
  rw [Field.cutName?_eq_none_iff]
  rintro a b rfl ha
  exact absurd ha (h.ne_of_append_cons (by decide) (by decide))

end Code
end Text

namespace Interpolation

open Text

/-- The search for the end of a placeholder goes through the text at any depth. -/
def Passed (q : Quoting) (s : List Char) : Prop := ∀ depth rest,
  closing? depth q (s ++ rest) =
    (closing? depth (q.after s) rest).map fun r => (s ++ r.1, r.2)

variable {q : Quoting} {c : Char} {s t : List Char}

theorem passed_nil : Passed q [] := by
  intro depth rest
  simp

theorem Passed.append (hs : Passed q s) (ht : Passed (q.after s) t) : Passed q (s ++ t) := by
  intro depth rest
  rw [List.append_assoc, hs, ht, Option.map_map, Quoting.after_append]
  congr 1
  funext r
  simp

theorem Passed.cons (hopen : ¬(q = .outside ∧ c = '\x7b')) (hclose : ¬(q = .outside ∧ c = '\x7d'))
    (hs : Passed (q.step c) s) : Passed q (c :: s) := by
  intro depth rest
  have hdepth : depthAfter depth q c = depth := by rw [depthAfter, if_neg hopen, if_neg hclose]
  rw [List.cons_append, closing?, if_neg (fun h => hclose h.2), hdepth, hs, Option.map_map]
  rfl

theorem passed_of_sealed (h : Sealed q s) : Passed q s := by
  induction s generalizing q with
  | nil => exact passed_nil
  | cons c s ih =>
      obtain ⟨hq, hs⟩ := sealed_cons.1 h
      exact .cons (fun h => hq h.1) (fun h => hq h.1) (ih hs)

theorem passed_of_inert (hc : isInert c = true) (hopen : c ≠ '\x7b') (hclose : c ≠ '\x7d') :
    Passed .outside [c] := by
  refine .cons (fun h => hopen h.2) (fun h => hclose h.2) ?_
  rw [Quoting.step_of_isInert hc]
  exact passed_nil

theorem passed_braces (hs : Passed .outside s) (hafter : Quoting.outside.after s = .outside) :
    Passed .outside ('\x7b' :: (s ++ ['\x7d'])) := by
  intro depth rest
  have hopen : Quoting.outside.step '\x7b' = .outside := rfl
  have hclose : Quoting.outside.step '\x7d' = .outside := rfl
  have hin : depthAfter depth .outside '\x7b' = depth + 1 := rfl
  have hout : depthAfter (depth + 1) .outside '\x7d' = depth := rfl
  rw [List.cons_append, closing?, if_neg (fun h => absurd h.2.2 (by decide)), hin, hopen,
    List.append_assoc, hs, hafter, List.cons_append, List.nil_append, closing?,
    if_neg (fun h => absurd h.1 (by omega)), hout, hclose, Quoting.after_cons, hopen,
    Quoting.after_append, hafter, Option.map_map, Option.map_map]
  congr 1
  funext r
  simp

theorem passed_group {b : Char × Char} (hb : b ∈ brackets) (hs : Passed .outside s)
    (hafter : Quoting.outside.after s = .outside) : Passed .outside (b.1 :: (s ++ [b.2])) := by
  -- braces are counted, the other brackets are passed like any character
  have hinert (l r : Char) (hl : isInert l = true ∧ l ≠ '\x7b' ∧ l ≠ '\x7d')
      (hr : isInert r = true ∧ r ≠ '\x7b' ∧ r ≠ '\x7d') : Passed .outside (l :: (s ++ [r])) := by
    refine (passed_of_inert hl.1 hl.2.1 hl.2.2).append (t := s ++ [r]) ?_
    rw [Quoting.after_cons, Quoting.step_of_isInert hl.1]
    refine hs.append ?_
    rw [hafter]
    exact passed_of_inert hr.1 hr.2.1 hr.2.2
  simp only [brackets, List.mem_cons, List.not_mem_nil, or_false] at hb
  rcases hb with rfl | rfl | rfl
  · exact hinert '(' ')' (by decide) (by decide)
  · exact hinert '[' ']' (by decide) (by decide)
  · exact passed_braces hs hafter

theorem passed_of_code (h : Code s) : Passed .outside s := by
  induction h with
  | nil => exact passed_nil
  | @plain c s hc _ ih =>
      have hinert := isInert_of_isPlain hc
      refine (passed_of_inert hinert ?_ ?_).append (t := s) ?_
      · exact ne_of_isPlain hc (by decide)
      · exact ne_of_isPlain hc (by decide)
      · rwa [Quoting.after_cons, Quoting.step_of_isInert hinert]
  | literal v _ ih =>
      refine .append (.cons (by decide) (by decide) (passed_of_sealed (sealed_body v).1)) ?_
      rwa [(Code.quoted v).after]
  | @group b s t hb hs _ ihs iht =>
      have htext : b.1 :: (s ++ b.2 :: t) = b.1 :: (s ++ [b.2]) ++ t := by simp
      have hafter : Quoting.outside.after (b.1 :: (s ++ [b.2])) = .outside := (hs.bracketed hb).after
      rw [htext]
      refine (passed_group hb ihs hs.after).append ?_
      rwa [hafter]

end Interpolation
end WidgetMarkup
