import Mathlib.Data.Nat.Count
import WidgetMarkup.Proofs.QuotedSections
import WidgetMarkup.Proofs.Scanning

namespace WidgetMarkup.Field

open Text

theorem flatMap_cutFrom (q : Quoting) (s : List Char) :
    (cutFrom q s).1 ++ (cutFrom q s).2.flatMap (';' :: ·) = s := by
  induction s generalizing q with
  | nil => rfl
  | cons c s ih =>
      rw [cutFrom]
      split
      case isTrue hc => rw [hc.2, List.nil_append, List.flatMap_cons, List.cons_append, ih]
      case isFalse => rw [List.cons_append, ih]

theorem intercalate_semicolon (t : List Char) (ts : List (List Char)) :
    [';'].intercalate (t :: ts) = t ++ ts.flatMap (';' :: ·) := by
  induction ts generalizing t with
  | nil => rw [List.intercalate_singleton, List.flatMap_nil, List.append_nil]
  | cons u us ih => rw [List.intercalate_cons_cons, ih, List.flatMap_cons]; simp

theorem intercalate_pieces (s : List Char) : [';'].intercalate (pieces s) = s := by
  rw [pieces, intercalate_semicolon, flatMap_cutFrom]

theorem pieces_append {s : List Char} (h : Closed s) (t : List Char) :
    pieces (s ++ ';' :: t) = pieces s ++ pieces t := by
  rw [pieces, cutFrom_append_semicolon (closed_iff.1 h)]
  rfl

theorem cutFrom_cases (q : Quoting) (s : List Char) :
    Unsplit q s ∧ cutFrom q s = (s, []) ∨
      ∃ a b, s = a ++ ';' :: b ∧ Unsplit q a ∧ q.after a = .outside ∧
        cutFrom q s = (a, pieces b) := by
  induction s generalizing q with
  | nil => exact .inl ⟨unsplit_nil q, rfl⟩
  | cons c s ih =>
      by_cases hc : q = .outside ∧ c = ';'
      case pos =>
        obtain ⟨rfl, rfl⟩ := hc
        exact .inr ⟨[], s, rfl, unsplit_nil _, rfl, rfl⟩
      case neg =>
        rw [cutFrom, if_neg hc]
        rcases ih (q.step c) with ⟨hs, hcut⟩ | ⟨a, b, rfl, ha, hq, hcut⟩
        · exact .inl ⟨unsplit_cons.2 ⟨hc, hs⟩, by rw [hcut]⟩
        · exact .inr ⟨c :: a, b, rfl, unsplit_cons.2 ⟨hc, ha⟩, hq, by rw [hcut]⟩

theorem pieces_at {s t : List Char} {ss ts : List (List Char)} (h : pieces s = ss ++ t :: ts) :
    s = ss.flatMap (· ++ [';']) ++ (t ++ ts.flatMap (';' :: ·)) ∧ (∀ u ∈ ss, Closed u) ∧
      Unsplit .outside t ∧ (ts ≠ [] → Closed t) := by
  induction ss generalizing s with
  | nil =>
      rw [List.nil_append] at h
      refine ⟨?_, by simp, ?_, ?_⟩
      · rw [List.flatMap_nil, List.nil_append, ← intercalate_semicolon, ← h, intercalate_pieces]
      · rw [pieces, List.cons_eq_cons] at h
        exact h.1 ▸ (unsplit_cutFrom .outside s).1
      · intro hts
        rw [pieces, List.cons_eq_cons] at h
        rcases cutFrom_cases .outside s with ⟨-, hcut⟩ | ⟨a, b, -, -, hq, hcut⟩
        · rw [hcut] at h
          exact absurd h.2.symm hts
        · rw [hcut] at h
          exact h.1 ▸ closed_iff.2 hq
  | cons u ss ih =>
      rw [pieces, List.cons_append, List.cons_eq_cons] at h
      rcases cutFrom_cases .outside s with ⟨-, hcut⟩ | ⟨a, b, rfl, -, hq, hcut⟩
      · rw [hcut] at h
        simp at h
      · rw [hcut] at h
        obtain ⟨rfl, hb⟩ := h
        obtain ⟨rfl, hss, ht, hts⟩ := ih hb
        refine ⟨by simp, ?_, ht, hts⟩
        rw [List.forall_mem_cons]
        exact ⟨closed_iff.2 hq, hss⟩

theorem length_cutFrom (q : Quoting) (s : List Char) :
    (cutFrom q s).2.length =
      Nat.count (fun i => s[i]? = some ';' ∧ q.after (s.take i) = .outside) s.length := by
  induction s generalizing q with
  | nil => rfl
  | cons c s ih =>
      have htail : Nat.count (fun i => (c :: s)[i + 1]? = some ';' ∧
          q.after ((c :: s).take (i + 1)) = .outside) s.length = (cutFrom (q.step c) s).2.length :=
        (ih (q.step c)).symm
      rw [List.length_cons, Nat.count_succ', htail, cutFrom]
      split
      case isTrue hc =>
        obtain ⟨rfl, rfl⟩ := hc
        rfl
      case isFalse hc =>
        have hzero : ¬((c :: s)[0]? = some ';' ∧ q.after ((c :: s).take 0) = .outside) := by
          simpa [and_comm] using hc
        rw [if_neg hzero]
        rfl

theorem cutName?_eq_some {q : Quoting} {prev : Option Char} {s a b : List Char}
    (h : cutName? q prev s = some (a, b)) :
    s = a ++ '=' :: b ∧ q.after a = .outside ∧
      inOperator (a.getLast?.or prev) b.head? = false ∧
      ∀ a' b', s = a' ++ '=' :: b' → q.after a' = .outside →
        inOperator (a'.getLast?.or prev) b'.head? = false → byteSize a ≤ byteSize a' := by
  induction s generalizing q prev a with
  | nil => cases h
  | cons c s ih =>
      rw [cutName?] at h
      split at h
      case isTrue hc =>
        obtain ⟨rfl, rfl⟩ := Prod.mk.inj (Option.some.inj h)
        obtain ⟨hq, rfl, hop⟩ := hc
        exact ⟨rfl, hq, by simpa using hop, fun _ _ _ _ _ => Nat.zero_le _⟩
      case isFalse hc =>
        obtain ⟨⟨a, b⟩, hcut, hr⟩ := Option.map_eq_some_iff.1 h
        obtain ⟨rfl, rfl⟩ := Prod.mk.inj hr
        obtain ⟨rfl, hq, hop, hfirst⟩ := ih hcut
        refine ⟨rfl, hq, by rwa [getLast?_cons_or], ?_⟩
        intro a' b' hs hq' hop'
        cases a' with
        | nil =>
            rw [List.nil_append, List.cons_eq_cons] at hs
            exact absurd ⟨hq', hs.1, by rw [hs.2]; simpa using hop'⟩ hc
        | cons d a' =>
            rw [List.cons_append, List.cons_eq_cons] at hs
            obtain ⟨rfl, hs⟩ := hs
            rw [getLast?_cons_or] at hop'
            exact Nat.add_le_add_left (hfirst a' b' hs hq' hop') _

/-- A `=` between these two texts ends a name: it is unquoted and no part of an operator. -/
def Separates (a b : List Char) : Prop :=
  Closed a ∧ (∀ c, a.getLast? = some c → c ∉ ['!', '<', '>', '=']) ∧
    ∀ c, b.head? = some c → c ∉ ['=', '>']

theorem separates_iff {a b : List Char} : Separates a b ↔
    Quoting.outside.after a = .outside ∧ inOperator a.getLast? b.head? = false := by
  rw [Separates, closed_iff]
  cases a.getLast? <;> cases b.head? <;> simp [inOperator, isOperatorHead, and_assoc]

theorem closed_flatMap {ss : List (List Char)} (h : ∀ s ∈ ss, Closed s) :
    Closed (ss.flatMap (· ++ [';'])) := by
  induction ss with
  | nil => exact .nil
  | cons s ss ih =>
      rw [List.forall_mem_cons] at h
      have hsemicolon : Closed [';'] := .plain rfl .nil
      exact (h.1.append hsemicolon).append (ih h.2)

theorem getLast?_flatMap (ss : List (List Char)) :
    (ss.flatMap (· ++ [';'])).getLast? = none ∨ (ss.flatMap (· ++ [';'])).getLast? = some ';' := by
  induction ss with
  | nil => exact .inl rfl
  | cons s ss ih =>
      rw [List.flatMap_cons, List.getLast?_append]
      rcases ih with h | h <;> rw [h] <;> simp

-- The pieces around a piece meet it in a semicolon, which is no part of an operator.
theorem separates_within {ss : List (List Char)} (h : ∀ s ∈ ss, Closed s) (a b : List Char)
    (ts : List (List Char)) :
    Separates (ss.flatMap (· ++ [';']) ++ a) (b ++ ts.flatMap (';' :: ·)) ↔ Separates a b := by
  have hhead : (ts.flatMap (';' :: ·)).head? = none ∨
      (ts.flatMap (';' :: ·)).head? = some ';' := by
    cases ts <;> simp
  rw [separates_iff, separates_iff, Quoting.after_append, closed_iff.1 (closed_flatMap h),
    List.getLast?_append, List.head?_append]
  cases a.getLast? <;> cases b.head? <;> rcases getLast?_flatMap ss with hl | hl <;>
    rcases hhead with hh | hh <;> simp [hl, hh, inOperator, isOperatorHead]

end WidgetMarkup.Field
