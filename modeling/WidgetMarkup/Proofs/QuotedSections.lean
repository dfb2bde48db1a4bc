import WidgetMarkup.Proofs.Pieces

namespace WidgetMarkup.Text

/-- What may stand between the quote `q` that opens a section and the one that closes it. A
backslash takes the next character with it, so that a quote behind it does not close. -/
inductive Inside (q : Char) : List Char → Prop
  | nil : Inside q []
  | plain {c : Char} {s : List Char} : c ≠ '\\' → c ≠ q → Inside q s → Inside q (c :: s)
  | escape {c : Char} {s : List Char} : Inside q s → Inside q ('\\' :: c :: s)

/-- Every quoted section of the text ends in it: a character after the text is unquoted. -/
inductive Closed : List Char → Prop
  | nil : Closed []
  | plain {c : Char} {s : List Char} : isQuote c = false → Closed s → Closed (c :: s)
  | quoted {q : Char} {s t : List Char} : isQuote q = true → Inside q s → Closed t →
      Closed (q :: (s ++ q :: t))

/-- The quote `q` opens the last section of the text, and nothing closes it. -/
def Open (q : Char) (s : List Char) : Prop :=
  ∃ a b, s = a ++ q :: b ∧ Closed a ∧ isQuote q = true ∧
    (Inside q b ∨ ∃ b', b = b' ++ ['\\'] ∧ Inside q b')

theorem Inside.append {q : Char} {s t : List Char} (hs : Inside q s) (ht : Inside q t) :
    Inside q (s ++ t) := by
  induction hs with
  | nil => exact ht
  | plain hb hq _ ih => exact .plain hb hq ih
  | escape _ ih => exact .escape ih

theorem Closed.append {s t : List Char} (hs : Closed s) (ht : Closed t) : Closed (s ++ t) := by
  induction hs with
  | nil => exact ht
  | plain hc _ ih => exact .plain hc ih
  | @quoted q s _ hq hs _ ih =>
      rw [List.cons_append, List.append_assoc]
      exact .quoted hq hs ih

namespace Quoting

theorem after_of_inside {q : Char} {s : List Char} (h : Inside q s) :
    (inside q).after s = inside q := by
  induction h with
  | nil => rfl
  | plain hb hq _ ih => simpa [step, hb, hq] using ih
  | escape _ ih => simpa [step] using ih

theorem step_quote {q : Char} (h : isQuote q = true) : outside.step q = inside q := by
  rw [step, if_pos h]

theorem step_closing {q : Char} (h : isQuote q = true) : (inside q).step q = outside := by
  have hb : q ≠ '\\' := by
    rintro rfl
    exact absurd h (by decide)
  simp [step, hb]

theorem after_of_closed {s : List Char} (h : Closed s) : outside.after s = outside := by
  induction h with
  | nil => rfl
  | plain hc _ ih => rwa [after_cons, step, if_neg (by rw [hc]; decide)]
  | quoted hq hs _ ih =>
      rw [after_cons, step_quote hq, after_append, after_of_inside hs, after_cons,
        step_closing hq, ih]

def Read : Quoting → List Char → Prop
  | outside, s => Closed s
  | inside q, s => ∃ a b, s = a ++ q :: b ∧ Closed a ∧ isQuote q = true ∧ Inside q b
  | escaped q, s => ∃ a b, s = a ++ q :: (b ++ ['\\']) ∧ Closed a ∧ isQuote q = true ∧ Inside q b

theorem read_step {q : Quoting} {s : List Char} (h : q.Read s) (c : Char) :
    (q.step c).Read (s ++ [c]) := by
  cases q with
  | outside =>
      rw [step]
      split
      case isTrue hc => exact ⟨s, [], rfl, h, hc, .nil⟩
      case isFalse hc => exact Closed.append h (.plain (eq_false_of_ne_true hc) .nil)
  | inside q =>
      obtain ⟨a, b, rfl, ha, hq, hb⟩ := h
      rw [List.append_assoc, List.cons_append, step]
      split
      case isTrue hc =>
        rw [beq_iff_eq] at hc
        subst c
        exact ⟨a, b, rfl, ha, hq, hb⟩
      case isFalse hc =>
        rw [beq_iff_eq] at hc
        split
        case isTrue hcq =>
          rw [beq_iff_eq] at hcq
          subst c
          exact ha.append (.quoted hq hb .nil)
        case isFalse hcq =>
          rw [beq_iff_eq] at hcq
          exact ⟨a, b ++ [c], rfl, ha, hq, hb.append (.plain hc hcq .nil)⟩
  | escaped q =>
      obtain ⟨a, b, rfl, ha, hq, hb⟩ := h
      refine ⟨a, b ++ ['\\', c], by simp, ha, hq, hb.append (.escape .nil)⟩

theorem read_after {q : Quoting} {s : List Char} (h : q.Read s) (t : List Char) :
    (q.after t).Read (s ++ t) := by
  induction t generalizing q s with
  | nil => rwa [List.append_nil]
  | cons c t ih =>
      rw [List.append_cons]
      exact ih (read_step h c)

theorem read (s : List Char) : (outside.after s).Read s := by
  have hnil : outside.Read [] := Closed.nil
  exact read_after hnil s

end Quoting

theorem closed_iff {s : List Char} : Closed s ↔ Quoting.outside.after s = .outside := by
  constructor
  · exact Quoting.after_of_closed
  · intro h
    have hread := Quoting.read s
    rwa [h] at hread

theorem open_iff {q : Char} {s : List Char} :
    Open q s ↔ (Quoting.outside.after s).openQuote? = some q := by
  constructor
  · rintro ⟨a, b, rfl, ha, hq, hb⟩
    rw [Quoting.after_append, Quoting.after_of_closed ha, Quoting.after_cons, Quoting.step_quote hq]
    rcases hb with hb | ⟨b, rfl, hb⟩
    · rw [Quoting.after_of_inside hb]
      rfl
    · rw [Quoting.after_append, Quoting.after_of_inside hb]
      rfl
  · intro h
    have hread := Quoting.read s
    cases hstate : Quoting.outside.after s with
    | outside => rw [hstate] at h; cases h
    | inside q' =>
        rw [hstate] at h hread
        obtain rfl : q' = q := Option.some.inj h
        obtain ⟨a, b, hs, ha, hq, hb⟩ := hread
        exact ⟨a, b, hs, ha, hq, .inl hb⟩
    | escaped q' =>
        rw [hstate] at h hread
        obtain rfl : q' = q := Option.some.inj h
        obtain ⟨a, b, hs, ha, hq, hb⟩ := hread
        exact ⟨a, b ++ ['\\'], hs, ha, hq, .inr ⟨b, rfl, hb⟩⟩

instance (s : List Char) : Decidable (Closed s) := decidable_of_iff _ closed_iff.symm

instance (q : Char) (s : List Char) : Decidable (Open q s) := decidable_of_iff _ open_iff.symm

end WidgetMarkup.Text
