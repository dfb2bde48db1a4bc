import Mathlib
import WidgetMarkup.Text.Charset
import WidgetMarkup.Text.Dashes

namespace WidgetMarkup.Text

variable {s t a b before after : List Char} {c : Char} {held k : Nat}

structure Run (s before : List Char) (k : Nat) (after : List Char) : Prop where
  text : s = before ++ (List.replicate (k + 1) '-' ++ after)
  left : before.getLast? ≠ some '-'
  right : after.head? ≠ some '-'

/-- Dashes and the character that they are folded into, somewhere in a text. -/
structure Match (s before : List Char) (k : Nat) (c : Char) (after : List Char) : Prop where
  text : s = before ++ (List.replicate (k + 1) '-' ++ c :: after)
  word : startsWord c = true

/-- Each match from the left on is replaced by its last character as a capital. A match is as long
as it can be from where it starts, for it ends with the first character there that is no dash. -/
inductive Replaced : List Char → List Char → Prop
  | unmatched (s : List Char) (h : ∀ before k c after, ¬Match s before k c after) : Replaced s s
  | leftmost (s before : List Char) (k : Nat) (c : Char) (after t : List Char)
      (h : Match s before k c after)
      (hleft : ∀ p i d q, Match s p i d q → before.length ≤ p.length)
      (hafter : Replaced after t) : Replaced s (before ++ c.toUpper :: t)

/-- No dash stands in front of a character that it could be folded into. -/
def Folded (s : List Char) : Prop := s.IsChain fun c d => c = '-' → startsWord d = false

def letters (s : List Char) : List Char := (s.filter (· != '-')).map Char.toLower

theorem startsWord_dash : startsWord '-' = false := by decide

theorem ne_dash_of_startsWord (h : startsWord c = true) : c ≠ '-' := by
  rintro rfl
  exact absurd h (by decide)

/-- A capital is a letter or what was a digit before. -/
theorem isAlphanum_toUpper (h : startsWord c = true) :
    c.toUpper.isAlpha = true ∨ c.toUpper.isDigit = true := by
  rw [startsWord, Bool.or_eq_true] at h
  rw [Char.isAlpha_toUpper_eq_isAlpha]
  by_cases hlower : c.isLower = true
  · left
    rw [Char.isAlpha, hlower, Bool.or_true]
  · right
    rw [Char.toUpper_eq_of_not_isLower hlower]
    exact h.resolve_left hlower

theorem toUpper_ne_dash (h : startsWord c = true) : c.toUpper ≠ '-' := by
  intro hdash
  rcases isAlphanum_toUpper h with h | h
  all_goals
    rw [hdash] at h
    exact absurd h (by decide)

theorem camelFrom_dash (held : Nat) (s : List Char) :
    camelFrom held ('-' :: s) = camelFrom (held + 1) s := rfl

theorem camelFrom_cons_of_word (h : startsWord c = true) (k : Nat) (s : List Char) :
    camelFrom (k + 1) (c :: s) = c.toUpper :: camel s := by
  have hdash : (c == '-') = false := by simpa using ne_dash_of_startsWord h
  rw [camelFrom, hdash, h]
  rfl

theorem camelFrom_cons (hc : c ≠ '-') (h : held = 0 ∨ startsWord c = false) (s : List Char) :
    camelFrom held (c :: s) = List.replicate held '-' ++ c :: camel s := by
  have hdash : (c == '-') = false := by simpa using hc
  have hkeep : (held != 0 && startsWord c) = false := by
    rcases h with h | h <;> simp [h]
  rw [camelFrom, hdash, hkeep]
  rfl

theorem camel_cons (hc : c ≠ '-') (s : List Char) : camel (c :: s) = c :: camel s :=
  camelFrom_cons hc (.inl rfl) s

theorem char_cases (held : Nat) (c : Char) :
    c = '-' ∨ (c ≠ '-' ∧ (held = 0 ∨ startsWord c = false)) ∨
      (startsWord c = true ∧ ∃ k, held = k + 1) := by
  by_cases hc : c = '-'
  · exact .inl hc
  · by_cases hkeep : held = 0 ∨ startsWord c = false
    · exact .inr (.inl ⟨hc, hkeep⟩)
    · rw [not_or, Bool.not_eq_false] at hkeep
      exact .inr (.inr ⟨hkeep.2, Nat.exists_eq_succ_of_ne_zero hkeep.1⟩)

theorem camelFrom_replicate (held k : Nat) (s : List Char) :
    camelFrom held (List.replicate k '-' ++ s) = camelFrom (held + k) s := by
  induction k generalizing held with
  | zero => rfl
  | succ k ih =>
      rw [List.replicate_succ, List.cons_append, camelFrom_dash, ih]
      congr 1
      omega

theorem camel_replicate (k : Nat) (s : List Char) :
    camel (List.replicate k '-' ++ s) = camelFrom k s := by
  rw [camel, camelFrom_replicate, Nat.zero_add]

theorem camelFrom_append (hne : a ≠ []) (h : a.getLast? ≠ some '-') (held : Nat) (b : List Char) :
    camelFrom held (a ++ b) = camelFrom held a ++ camel b := by
  induction a generalizing held with
  | nil => exact absurd rfl hne
  | cons c a ih =>
      have hlast (ha : a ≠ []) : a.getLast? ≠ some '-' := by
        rwa [List.getLast?_cons_of_ne_nil ha] at h
      have hrest : camel (a ++ b) = camel a ++ camel b := by
        by_cases ha : a = []
        · rw [ha]
          rfl
        · exact ih ha (hlast ha) 0
      rw [List.cons_append]
      -- a dash is not the last character, so the dashes held grow only with text behind them
      rcases char_cases held c with rfl | ⟨hc, hkeep⟩ | ⟨hword, k, rfl⟩
      · have ha : a ≠ [] := by
          rintro rfl
          exact h rfl
        exact ih ha (hlast ha) (held + 1)
      · rw [camelFrom_cons hc hkeep, camelFrom_cons hc hkeep, hrest, List.append_assoc]
        rfl
      · rw [camelFrom_cons_of_word hword, camelFrom_cons_of_word hword, hrest]
        rfl

theorem camel_append (h : a.getLast? ≠ some '-') (b : List Char) :
    camel (a ++ b) = camel a ++ camel b := by
  by_cases ha : a = []
  · rw [ha]
    rfl
  · exact camelFrom_append ha h 0 b

theorem camel_of_dropped (h : Run s before k (c :: after)) (hc : startsWord c = true) :
    camel s = camel before ++ c.toUpper :: camel after := by
  rw [h.text, camel_append h.left, camel_replicate, camelFrom_cons_of_word hc]

theorem camel_of_kept (h : Run s before k after) (hafter : ∀ c ∈ after.head?, startsWord c = false) :
    camel s = camel before ++ (List.replicate (k + 1) '-' ++ camel after) := by
  rw [h.text, camel_append h.left, camel_replicate]
  cases after with
  | nil => exact congrArg _ (List.append_nil _).symm
  | cons c after =>
      have hc : c ≠ '-' := fun he => h.right (congrArg some he)
      rw [camelFrom_cons hc (.inr (hafter c rfl)), camel_cons hc]

theorem camelFrom_of_folded (h : Folded (List.replicate held '-' ++ s)) :
    camelFrom held s = List.replicate held '-' ++ s := by
  induction s generalizing held with
  | nil => exact (List.append_nil _).symm
  | cons c s ih =>
      have hshift : List.replicate held '-' ++ '-' :: s = List.replicate (held + 1) '-' ++ s := by
        rw [List.replicate_succ', List.append_assoc]
        rfl
      by_cases hc : c = '-'
      · subst hc
        rw [hshift] at h
        rw [camelFrom_dash, ih h, hshift]
      · rw [Folded, List.isChain_append, List.isChain_cons] at h
        obtain ⟨-, ⟨-, hrest⟩, hjoin⟩ := h
        have hkeep : held = 0 ∨ startsWord c = false := by
          cases held with
          | zero => exact .inl rfl
          | succ k => exact .inr (hjoin '-' (by simp [List.getLast?_replicate]) c rfl rfl)
        have hcamel : camel s = s := @ih 0 hrest
        rw [camelFrom_cons hc hkeep, hcamel]

theorem folded_cons (hc : c ≠ '-') : Folded (c :: s) ↔ Folded s := by
  rw [Folded, List.isChain_cons]
  exact and_iff_right fun _ _ he => absurd he hc

theorem folded_replicate_append (hs : Folded s)
    (h : held = 0 ∨ ∀ d ∈ s.head?, startsWord d = false) :
    Folded (List.replicate held '-' ++ s) := by
  rw [Folded, List.isChain_append]
  refine ⟨List.isChain_replicate_of_rel held fun _ => startsWord_dash, hs, ?_⟩
  intro c hc d hd _
  rcases h with rfl | h
  · cases hc
  · exact h d hd

theorem folded_camelFrom (held : Nat) (s : List Char) : Folded (camelFrom held s) := by
  induction s generalizing held with
  | nil => exact List.isChain_replicate_of_rel held fun _ => startsWord_dash
  | cons c s ih =>
      rcases char_cases held c with rfl | ⟨hc, hkeep⟩ | ⟨hword, k, rfl⟩
      · exact ih (held + 1)
      · rw [camelFrom_cons hc hkeep]
        apply folded_replicate_append ((folded_cons hc).2 (ih 0))
        simpa using hkeep
      · rw [camelFrom_cons_of_word hword, folded_cons (toUpper_ne_dash hword)]
        exact ih 0

theorem camel_of_folded (h : Folded s) : camel s = s := @camelFrom_of_folded s 0 h

theorem folded_iff :
    Folded s ↔ ∀ before c after, s = before ++ '-' :: c :: after → startsWord c = false := by
  rw [Folded, List.isChain_iff_forall_rel_of_append_cons_cons]
  constructor
  · intro h before c after hs
    exact h hs rfl
  · rintro h d c before after hs rfl
    exact h before c after hs

theorem folded_of_unmatched (h : ∀ before k c after, ¬Match s before k c after) : Folded s := by
  rw [folded_iff]
  intro before c after hs
  by_contra hword
  exact h before 0 c after ⟨hs, by simpa using hword⟩

theorem camel_of_leftmost (h : Match s before k c after)
    (hleft : ∀ p i d q, Match s p i d q → before.length ≤ p.length) :
    camel s = before ++ c.toUpper :: camel after := by
  have hlast : before.getLast? ≠ some '-' := by
    intro hdash
    obtain ⟨p, rfl⟩ := List.getLast?_eq_some_iff.1 hdash
    have hlonger : Match s p (k + 1) c after := by
      refine ⟨?_, h.word⟩
      rw [h.text, List.append_assoc, List.replicate_succ (n := k + 1)]
      rfl
    have hle := hleft _ _ _ _ hlonger
    rw [List.length_append, List.length_singleton] at hle
    omega
  have hfolded : Folded before := by
    rw [folded_iff]
    rintro p d q rfl
    by_contra hword
    have hearlier : Match s p 0 d (q ++ (List.replicate (k + 1) '-' ++ c :: after)) := by
      refine ⟨?_, by simpa using hword⟩
      rw [h.text, List.append_assoc]
      rfl
    have hle := hleft _ _ _ _ hearlier
    rw [List.length_append, List.length_cons] at hle
    omega
  rw [h.text, camel_append hlast, camel_of_folded hfolded, camel_replicate,
    camelFrom_cons_of_word h.word]

theorem exists_leftmost (h : ∃ before k c after, Match s before k c after) :
    ∃ before k c after, Match s before k c after ∧
      ∀ p i d q, Match s p i d q → before.length ≤ p.length := by
  classical
  have hlengths : ∃ n before k c after, Match s before k c after ∧ before.length = n := by
    obtain ⟨before, k, c, after, h⟩ := h
    exact ⟨_, before, k, c, after, h, rfl⟩
  obtain ⟨before, k, c, after, hmatch, hlength⟩ := Nat.find_spec hlengths
  refine ⟨before, k, c, after, hmatch, ?_⟩
  intro p i d q hp
  rw [hlength]
  exact Nat.find_min' hlengths ⟨p, i, d, q, hp, rfl⟩

theorem eq_camel_of_replaced (h : Replaced s t) : t = camel s := by
  induction h with
  | unmatched s h => exact (camel_of_folded (folded_of_unmatched h)).symm
  | leftmost s before k c after t h hleft _ ih => rw [camel_of_leftmost h hleft, ih]

theorem replaced_camel (s : List Char) : Replaced s (camel s) := by
  by_cases h : ∃ before k c after, Match s before k c after
  · obtain ⟨before, k, c, after, hmatch, hleft⟩ := exists_leftmost h
    rw [camel_of_leftmost hmatch hleft]
    exact .leftmost s before k c after _ hmatch hleft (replaced_camel after)
  · simp only [not_exists] at h
    rw [camel_of_folded (folded_of_unmatched h)]
    exact .unmatched s h
termination_by s.length
decreasing_by
  rw [hmatch.text, List.length_append, List.length_append, List.length_cons]
  omega

theorem letters_append (s t : List Char) : letters (s ++ t) = letters s ++ letters t := by
  rw [letters, List.filter_append, List.map_append]
  rfl

theorem letters_replicate (k : Nat) : letters (List.replicate k '-') = [] := by
  rw [letters, List.filter_replicate_of_neg (by decide)]
  rfl

theorem letters_cons (hc : c ≠ '-') (s : List Char) : letters (c :: s) = c.toLower :: letters s := by
  rw [letters, List.filter_cons_of_pos (by simpa using hc)]
  rfl

theorem letters_camelFrom (held : Nat) (s : List Char) : letters (camelFrom held s) = letters s := by
  induction s generalizing held with
  | nil => exact letters_replicate held
  | cons c s ih =>
      rcases char_cases held c with rfl | ⟨hc, hkeep⟩ | ⟨hword, k, rfl⟩
      · exact ih (held + 1)
      · rw [camelFrom_cons hc hkeep, letters_append, letters_replicate, letters_cons hc,
          letters_cons hc, List.nil_append]
        exact congrArg _ (ih 0)
      · rw [camelFrom_cons_of_word hword, letters_cons (toUpper_ne_dash hword),
          letters_cons (ne_dash_of_startsWord hword), Char.toLower_toUpper_eq_toLower]
        exact congrArg _ (ih 0)

theorem isNamePart_toUpper (h : startsWord c = true) : isNamePart c.toUpper = true := by
  rcases isAlphanum_toUpper h with h | h <;> simp [isNamePart, isNameStart, h]

theorem all_isNamePart_camelFrom (h : s.all isNamePart = true) (held : Nat) :
    (camelFrom held s).all isNamePart = true := by
  have hdashes (k : Nat) : (List.replicate k '-').all isNamePart = true := by
    rw [List.all_replicate]
    cases k <;> rfl
  induction s generalizing held with
  | nil => exact hdashes held
  | cons c s ih =>
      rw [List.all_cons, Bool.and_eq_true] at h
      rcases char_cases held c with rfl | ⟨hc, hkeep⟩ | ⟨hword, k, rfl⟩
      · exact ih h.2 (held + 1)
      · rw [camelFrom_cons hc hkeep, List.all_append, hdashes, List.all_cons, h.1]
        exact ih h.2 0
      · rw [camelFrom_cons_of_word hword, List.all_cons, isNamePart_toUpper hword]
        exact ih h.2 0

theorem isFieldName_camel (h : isFieldName s = true) : isFieldName (camel s) = true := by
  cases s with
  | nil => cases h
  | cons c s =>
      rw [isFieldName, Bool.and_eq_true] at h
      have hc : c ≠ '-' := by
        rintro rfl
        exact absurd h.1 (by decide)
      rw [camel_cons hc, isFieldName, h.1]
      exact all_isNamePart_camelFrom h.2 0

/-- Removing dashes replaces the matches one after the other: a run of dashes goes for the capital
of the small letter or the digit behind it, and stays where there is none. So no dash is left in
front of one, a second removal changes nothing, the letters stay apart from their case, and names of
fields stay names. -/
theorem camel_folds (s : List Char) :
    (∀ t, Replaced s t ↔ t = camel s) ∧
    (∀ before k c after, Run s before k (c :: after) → startsWord c = true →
      camel s = camel before ++ c.toUpper :: camel after) ∧
    (∀ before k after, Run s before k after → (∀ c ∈ after.head?, startsWord c = false) →
      camel s = camel before ++ (List.replicate (k + 1) '-' ++ camel after)) ∧
    ('-' ∉ s → camel s = s) ∧
    (∀ before c after, camel s = before ++ '-' :: c :: after → startsWord c = false) ∧
    camel (camel s) = camel s ∧
    letters (camel s) = letters s ∧
    (isFieldName s = true → isFieldName (camel s) = true) := by
  have hfolded : Folded (camel s) := folded_camelFrom 0 s
  refine ⟨?_, fun _ _ _ _ => camel_of_dropped, fun _ _ _ => camel_of_kept, ?_, ?_,
    camel_of_folded hfolded, letters_camelFrom 0 s, isFieldName_camel⟩
  · intro t
    constructor
    · exact eq_camel_of_replaced
    · rintro rfl
      exact replaced_camel s
  · intro hnone
    apply camel_of_folded
    rw [folded_iff]
    rintro before c after rfl
    simp at hnone
  · exact folded_iff.1 hfolded

theorem camel_mixed_runs :
    let s := ['a', '-', '-', 'b', '-', 'C', '-']
    Run s ['a'] 1 ['b', '-', 'C', '-'] ∧ startsWord 'b' = true ∧
      camel s = camel ['a'] ++ 'B' :: camel ['-', 'C', '-'] ∧
      Run s ['a', '-', '-', 'b'] 0 ['C', '-'] ∧ startsWord 'C' = false ∧
      camel s = camel ['a', '-', '-', 'b'] ++ (['-'] ++ camel ['C', '-']) ∧
      isFieldName s = true ∧ isFieldName (camel s) = true := by
  intro s
  obtain ⟨-, hdropped, hkept, -, -, -, -, hname⟩ := camel_folds s
  have hfirst : Run s ['a'] 1 ['b', '-', 'C', '-'] := ⟨rfl, by decide, by decide⟩
  have hsecond : Run s ['a', '-', '-', 'b'] 0 ['C', '-'] := ⟨rfl, by decide, by decide⟩
  have hword : startsWord 'b' = true := by decide
  have hcapital : startsWord 'C' = false := by decide
  have hfield : isFieldName s = true := by decide
  exact ⟨hfirst, hword, hdropped _ _ _ _ hfirst hword, hsecond, hcapital,
    hkept _ _ _ hsecond (by simpa using hcapital), hfield, hname hfield⟩

end WidgetMarkup.Text
