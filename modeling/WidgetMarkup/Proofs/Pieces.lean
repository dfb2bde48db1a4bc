import WidgetMarkup.Field.Split

namespace WidgetMarkup

namespace Text

def marks : List Char := ['\x27', '\x22', '\x60', '!', '<', '>', '=', ';']

def isInert (c : Char) : Bool := c ∉ marks

theorem isInert_of_class {p : Char → Bool} (hp : marks.any p = false) {c : Char}
    (h : p c = true) : isInert c = true := by
  rw [isInert, decide_eq_true_iff]
  intro hc
  exact List.any_eq_false.1 hp c hc h

theorem isInert_of_isBlank {c : Char} : isBlank c = true → isInert c = true :=
  isInert_of_class (by decide)

theorem isInert_of_isNamePart {c : Char} : isNamePart c = true → isInert c = true :=
  isInert_of_class (by decide)

theorem all_isInert_of_allBlank {s : List Char} (h : allBlank s = true) : s.all isInert = true := by
  rw [allBlank, List.all_eq_true] at h
  rw [List.all_eq_true]
  exact fun c hc => isInert_of_isBlank (h c hc)

theorem ne_of_isInert {c d : Char} (h : isInert c = true) (hd : d ∈ marks) : c ≠ d := by
  rw [isInert, decide_eq_true_iff] at h
  exact fun he => h (he ▸ hd)

theorem isOperatorHead_of_isInert {c : Char} (h : isInert c = true) : isOperatorHead c = false := by
  simp only [isInert, marks, List.mem_cons, not_or, decide_eq_true_iff] at h
  simp [isOperatorHead, h]

theorem Quoting.step_of_isInert {c : Char} (h : isInert c = true) :
    Quoting.outside.step c = .outside := by
  simp only [isInert, marks, List.mem_cons, not_or, decide_eq_true_iff] at h
  simp [Quoting.step, isQuote, h]

theorem Quoting.after_of_all_isInert {s : List Char} (h : s.all isInert = true) :
    Quoting.outside.after s = .outside := by
  induction s with
  | nil => rfl
  | cons c s ih =>
      rw [List.all_cons, Bool.and_eq_true] at h
      rw [Quoting.after_cons, Quoting.step_of_isInert h.1, ih h.2]

theorem Quoting.openQuote?_eq_none_iff {q : Quoting} : q.openQuote? = none ↔ q = .outside := by
  cases q <;> simp [Quoting.openQuote?]

end Text

namespace Field

open Text

/-- No semicolon of the text ends a piece when reading starts in the state `q`. -/
def Unsplit (q : Quoting) (s : List Char) : Prop :=
  ∀ a b, s = a ++ ';' :: b → q.after a ≠ .outside

theorem unsplit_nil (q : Quoting) : Unsplit q [] := by
  intro a b h
  simp at h

theorem unsplit_cons {q : Quoting} {c : Char} {s : List Char} :
    Unsplit q (c :: s) ↔ ¬(q = .outside ∧ c = ';') ∧ Unsplit (q.step c) s := by
  constructor
  · intro h
    constructor
    · rintro ⟨rfl, rfl⟩
      exact h [] s rfl rfl
    · intro a b hs
      exact h (c :: a) b (by rw [hs]; rfl)
  · rintro ⟨hc, hs⟩ a b h
    cases a with
    | nil =>
        rw [List.nil_append, List.cons_eq_cons] at h
        exact fun hq => hc ⟨hq, h.1⟩
    | cons d a =>
        rw [List.cons_append, List.cons_eq_cons] at h
        rw [← h.1]
        exact hs a b h.2

theorem unsplit_append {q : Quoting} {s t : List Char} :
    Unsplit q (s ++ t) ↔ Unsplit q s ∧ Unsplit (q.after s) t := by
  induction s generalizing q with
  | nil => simp [unsplit_nil]
  | cons c s ih => rw [List.cons_append, unsplit_cons, unsplit_cons, ih, Quoting.after_cons, and_assoc]

theorem unsplit_of_all_isInert {s : List Char} (h : s.all isInert = true) :
    Unsplit .outside s := by
  induction s with
  | nil => exact unsplit_nil _
  | cons c s ih =>
      rw [List.all_cons, Bool.and_eq_true] at h
      rw [unsplit_cons, Quoting.step_of_isInert h.1]
      exact ⟨fun hs => ne_of_isInert h.1 (by decide) hs.2, ih h.2⟩

theorem cutFrom_of_unsplit {q : Quoting} {s : List Char} (h : Unsplit q s) :
    cutFrom q s = (s, []) := by
  induction s generalizing q with
  | nil => rfl
  | cons c s ih =>
      rw [unsplit_cons] at h
      rw [cutFrom, if_neg h.1, ih h.2]

theorem cutFrom_semicolon (s : List Char) : cutFrom .outside (';' :: s) = ([], pieces s) := rfl

theorem cutFrom_append_semicolon {q : Quoting} {s : List Char} (h : q.after s = .outside)
    (t : List Char) :
    cutFrom q (s ++ ';' :: t) = ((cutFrom q s).1, (cutFrom q s).2 ++ pieces t) := by
  induction s generalizing q with
  | nil =>
      rw [Quoting.after_nil] at h
      rw [List.nil_append, h, cutFrom_semicolon]
      rfl
  | cons c s ih =>
      by_cases hc : q = .outside ∧ c = ';'
      case pos =>
        obtain ⟨rfl, rfl⟩ := hc
        have hs : Quoting.outside.after s = .outside := h
        have hcut : pieces (s ++ ';' :: t) = pieces s ++ pieces t := by
          rw [pieces, ih hs]
          rfl
        rw [List.cons_append, cutFrom_semicolon, cutFrom_semicolon, hcut]
      case neg => rw [List.cons_append, cutFrom, cutFrom, if_neg hc, if_neg hc, ih h]

theorem pieces_intercalate {ts : List (List Char)} (hne : ts ≠ [])
    (hsplit : ∀ t ∈ ts, Unsplit .outside t) (hclosed : ∀ t ∈ ts, Quoting.outside.after t = .outside) :
    pieces ([';'].intercalate ts) = ts := by
  induction ts with
  | nil => exact absurd rfl hne
  | cons t ts ih =>
      rw [List.forall_mem_cons] at hsplit hclosed
      cases ts with
      | nil => rw [List.intercalate_singleton, pieces, cutFrom_of_unsplit hsplit.1]
      | cons u us =>
          rw [List.intercalate_cons_cons, List.append_assoc, List.singleton_append, pieces,
            cutFrom_append_semicolon hclosed.1, cutFrom_of_unsplit hsplit.1]
          exact congrArg (t :: ·) (ih (List.cons_ne_nil u us) hsplit.2 hclosed.2)

/-- Closed texts that are all stored on their own are the fields of the joined text. -/
theorem split_intercalate {schema : Schema} {o : Options} {ts : List (List Char)} {fs : List Field}
    (hsplit : ∀ t ∈ ts, Unsplit .outside t) (hclosed : ∀ t ∈ ts, Quoting.outside.after t = .outside)
    (hstored : outcomes schema o false [] (ts.map Piece.read) = fs.map .stored) :
    split schema o (String.ofList ([';'].intercalate ts)) = ⟨fs, []⟩ := by
  rw [split, String.toList_ofList, Piece.readAll]
  by_cases hne : ts = []
  · subst ts
    obtain rfl : fs = [] := List.map_eq_nil_iff.1 hstored.symm
    rfl
  · rw [pieces_intercalate hne hsplit hclosed, hstored]
    simp [List.filterMap_map, Function.comp_def, Outcome.field?, Outcome.problem?]

theorem unsplit_cutFrom (q : Quoting) (s : List Char) :
    Unsplit q (cutFrom q s).1 ∧ ∀ t ∈ (cutFrom q s).2, Unsplit .outside t := by
  induction s generalizing q with
  | nil => exact ⟨unsplit_nil q, by simp [cutFrom]⟩
  | cons c s ih =>
      rw [cutFrom]
      split
      case isTrue =>
        refine ⟨unsplit_nil q, ?_⟩
        rw [List.forall_mem_cons]
        exact ih .outside
      case isFalse hc =>
        obtain ⟨hfirst, hrest⟩ := ih (q.step c)
        exact ⟨unsplit_cons.2 ⟨hc, hfirst⟩, hrest⟩

theorem unsplit_of_mem_pieces {s t : List Char} (h : t ∈ pieces s) : Unsplit .outside t := by
  obtain ⟨hfirst, hrest⟩ := unsplit_cutFrom .outside s
  rcases List.mem_cons.1 h with rfl | h
  · exact hfirst
  · exact hrest t h

theorem unsplit_iff {q : Quoting} {s : List Char} : Unsplit q s ↔ cutFrom q s = (s, []) := by
  constructor
  · exact cutFrom_of_unsplit
  · intro h
    have hfirst := (unsplit_cutFrom q s).1
    rwa [h] at hfirst

instance (q : Quoting) (s : List Char) : Decidable (Unsplit q s) :=
  decidable_of_iff _ unsplit_iff.symm

def Unseparated (s : List Char) : Prop :=
  ∀ a b, s = a ++ '=' :: b → Quoting.outside.after a = .outside →
    inOperator a.getLast? b.head? = true

theorem cutName?_cons_eq_none_iff {q : Quoting} {prev : Option Char} {c : Char} {s : List Char} :
    cutName? q prev (c :: s) = none ↔
      (q = .outside → c = '=' → inOperator prev s.head? = true) ∧
        cutName? (q.step c) (some c) s = none := by
  rw [cutName?]
  split
  case isTrue hc =>
    obtain ⟨hq, hc, hop⟩ := hc
    simp_all
  case isFalse hc =>
    rw [Option.map_eq_none_iff]
    refine ⟨fun h => ⟨fun hq he => ?_, h⟩, And.right⟩
    cases hop : inOperator prev s.head? with
    | true => rfl
    | false => exact absurd ⟨hq, he, by rw [hop]; rfl⟩ hc

theorem getLast?_cons_or (c : Char) (s : List Char) (prev : Option Char) :
    (c :: s).getLast?.or prev = s.getLast?.or (some c) := by
  rw [List.getLast?_cons]
  cases s.getLast? <;> rfl

theorem cutName?_eq_none_iff {q : Quoting} {prev : Option Char} {s : List Char} :
    cutName? q prev s = none ↔ ∀ a b, s = a ++ '=' :: b → q.after a = .outside →
      inOperator (a.getLast?.or prev) b.head? = true := by
  induction s generalizing q prev with
  | nil => simp [cutName?]
  | cons c s ih =>
      rw [cutName?_cons_eq_none_iff, ih]
      constructor
      · rintro ⟨hhead, htail⟩ a b hs hq
        cases a with
        | nil =>
            rw [List.nil_append, List.cons_eq_cons] at hs
            exact hs.2 ▸ hhead hq hs.1
        | cons d a =>
            rw [List.cons_append, List.cons_eq_cons] at hs
            rw [← hs.1, getLast?_cons_or]
            exact htail a b hs.2 (by rw [← Quoting.after_cons, hs.1, hq])
      · intro h
        constructor
        · rintro hq rfl
          exact h [] s rfl hq
        · intro a b hs hq
          rw [← getLast?_cons_or]
          exact h (c :: a) b (by rw [hs]; rfl) hq

theorem unseparated_iff {s : List Char} : Unseparated s ↔ cutName? .outside none s = none := by
  simp only [cutName?_eq_none_iff, Option.or_none, Unseparated]

instance (s : List Char) : Decidable (Unseparated s) := decidable_of_iff _ unseparated_iff.symm

theorem cutName?_congr_prev {q : Quoting} {prev prev' : Option Char} (s : List Char)
    (h : prev.any isOperatorHead = prev'.any isOperatorHead) :
    cutName? q prev s = cutName? q prev' s := by
  cases s with
  | nil => rfl
  | cons c s => rw [cutName?, cutName?, inOperator, inOperator, h]

theorem cutName?_inert_append {prev : Option Char} {s : List Char} (h : s.all isInert = true)
    (hprev : prev.any isOperatorHead = false) (t : List Char) :
    cutName? .outside prev (s ++ t) = (cutName? .outside none t).map fun r => (s ++ r.1, r.2) := by
  induction s generalizing prev with
  | nil =>
      have hnone : prev.any isOperatorHead = (none : Option Char).any isOperatorHead := hprev
      rw [List.nil_append, cutName?_congr_prev t hnone]
      simp
  | cons c s ih =>
      rw [List.all_cons, Bool.and_eq_true] at h
      have hc : c ≠ '=' := ne_of_isInert h.1 (by decide)
      rw [List.cons_append, cutName?, if_neg (fun hs => hc hs.2.1), Quoting.step_of_isInert h.1,
        ih h.2 (by simpa using isOperatorHead_of_isInert h.1), Option.map_map]
      rfl

theorem inOperator_inert {prev : Option Char} {t : List Char} (h : t.all isInert = true) :
    inOperator prev t.head? = inOperator prev none := by
  cases t with
  | nil => rfl
  | cons c t =>
      rw [List.all_cons, Bool.and_eq_true] at h
      have heq : (c == '=') = false := beq_false_of_ne (ne_of_isInert h.1 (by decide))
      have hgt : (c == '>') = false := beq_false_of_ne (ne_of_isInert h.1 (by decide))
      simp [inOperator, heq, hgt]

theorem cutName?_append_inert {q : Quoting} {prev : Option Char} {s : List Char}
    (h : cutName? q prev s = none) {t : List Char} (ht : t.all isInert = true) :
    cutName? q prev (s ++ t) = none := by
  induction s generalizing q prev with
  | nil =>
      rw [cutName?_eq_none_iff]
      intro a b ht'
      rw [List.nil_append] at ht'
      rw [ht', List.all_append, List.all_cons, Bool.and_eq_true, Bool.and_eq_true] at ht
      exact absurd ht.2.1 (by decide)
  | cons c s ih =>
      have hhead : inOperator prev (s ++ t).head? = inOperator prev s.head? := by
        cases s with
        | nil => exact inOperator_inert ht
        | cons d s => rfl
      rw [cutName?] at h
      split at h
      case isTrue => cases h
      case isFalse hc =>
        rw [List.cons_append, cutName?, hhead, if_neg hc, ih (Option.map_eq_none_iff.1 h),
          Option.map_none]

end Field
end WidgetMarkup
