import WidgetMarkup.Proofs.CodeText

namespace WidgetMarkup.Text

/-- Where a reader stands that counts brackets, of whatever kind, outside quotes. -/
structure Nesting where
  depth : Nat
  quoting : Quoting

namespace Nesting

def top : Nesting := ⟨0, .outside⟩

def step (l : Nesting) (c : Char) : Nesting where
  depth :=
    if l.quoting ≠ .outside then l.depth
    else if brackets.any fun b => c == b.1 then l.depth + 1
    else if brackets.any fun b => c == b.2 then l.depth - 1
    else l.depth
  quoting := l.quoting.step c

def after (l : Nesting) (s : List Char) : Nesting := s.foldl step l

abbrev Free (p : Char → Bool) (l : Nesting) (s : List Char) : Prop := Avoids step top p l s

variable {p : Char → Bool} {b : Char × Char} {s t : List Char} {depth : Nat}

theorem step_of_isPlain {c : Char} (hc : isPlain c = true) :
    step ⟨depth, .outside⟩ c = ⟨depth, .outside⟩ := by
  have hside (f : Char × Char → Char) (hf : ∀ b ∈ brackets, isPlain (f b) = false) :
      (brackets.any fun b => c == f b) = false := by
    rw [List.any_eq_false]
    intro b hb he
    exact ne_of_isPlain hc (hf b hb) (beq_iff_eq.1 he)
  rw [step, Quoting.step_of_isInert (isInert_of_isPlain hc), hside Prod.fst (by decide),
    hside Prod.snd (by decide)]
  rfl

theorem step_opening (hb : b ∈ brackets) :
    step ⟨depth, .outside⟩ b.1 = ⟨depth + 1, .outside⟩ := by
  simp only [brackets, List.mem_cons, List.not_mem_nil, or_false] at hb
  rcases hb with rfl | rfl | rfl <;> rfl

theorem step_closing (hb : b ∈ brackets) :
    step ⟨depth + 1, .outside⟩ b.2 = ⟨depth, .outside⟩ := by
  simp only [brackets, List.mem_cons, List.not_mem_nil, or_false] at hb
  rcases hb with rfl | rfl | rfl <;> rfl

theorem step_quote : step ⟨depth, .outside⟩ '\x22' = ⟨depth, .inside '\x22'⟩ := rfl

theorem after_append (l : Nesting) (s t : List Char) : l.after (s ++ t) = (l.after s).after t :=
  List.foldl_append

theorem after_cons (l : Nesting) (c : Char) (s : List Char) : l.after (c :: s) = (l.step c).after s :=
  rfl

theorem after_of_sealed {q : Quoting} (h : Sealed q s) :
    after ⟨depth, q⟩ s = ⟨depth, q.after s⟩ := by
  induction s generalizing q with
  | nil => rfl
  | cons c s ih =>
      obtain ⟨hq, hs⟩ := sealed_cons.1 h
      have hstep : step ⟨depth, q⟩ c = ⟨depth, q.step c⟩ := by rw [step, if_pos hq]
      rw [after_cons, hstep, ih hs, Quoting.after_cons]

theorem free_of_sealed {q : Quoting} (h : Sealed q s) : Free p ⟨depth, q⟩ s := by
  induction s generalizing q with
  | nil => trivial
  | cons c s ih =>
      obtain ⟨hq, hs⟩ := sealed_cons.1 h
      have hstep : step ⟨depth, q⟩ c = ⟨depth, q.step c⟩ := by rw [step, if_pos hq]
      refine ⟨fun htop => absurd (congrArg Nesting.quoting htop) hq, ?_⟩
      rw [hstep]
      exact ih hs

theorem after_quoted (v : List Char) :
    after ⟨depth, .outside⟩ (Json.quoted v) = ⟨depth, .outside⟩ := by
  rw [Json.quoted, List.cons_append, after_cons, step_quote, after_of_sealed (sealed_body v).1,
    (sealed_body v).2]

theorem free_quoted (hp : p '\x22' = false) (v : List Char) :
    Free p ⟨depth, .outside⟩ (Json.quoted v) :=
  ⟨fun _ => hp, free_of_sealed (sealed_body v).1⟩

theorem after_of_code (h : Code s) : after ⟨depth, .outside⟩ s = ⟨depth, .outside⟩ := by
  induction h generalizing depth with
  | nil => rfl
  | plain hc _ ih => rw [after_cons, step_of_isPlain hc, ih]
  | literal v _ ih => rw [after_append, after_quoted, ih]
  | group hb _ _ ihs iht =>
      rw [after_cons, step_opening hb, after_append, ihs, after_cons, step_closing hb, iht]

theorem free_of_deep (h : Code s) : Free p ⟨depth + 1, .outside⟩ s := by
  have hdeep (n : Nat) {q : Quoting} : (⟨n + 1, q⟩ : Nesting) ≠ top := fun htop =>
    absurd (congrArg Nesting.depth htop) (Nat.succ_ne_zero n)
  induction h generalizing depth with
  | nil => trivial
  | plain hc _ ih =>
      refine ⟨fun htop => absurd htop (hdeep depth), ?_⟩
      rw [step_of_isPlain hc]
      exact ih
  | literal v _ ih =>
      refine (avoids_append _ _).2 ⟨?_, ?_⟩
      · exact ⟨fun htop => absurd htop (hdeep depth), free_of_sealed (sealed_body v).1⟩
      · rw [← after, after_quoted]
        exact ih
  | group hb hs _ ihs iht =>
      refine ⟨fun htop => absurd htop (hdeep depth), ?_⟩
      rw [step_opening hb, avoids_append, ← after, after_of_code hs]
      refine ⟨ihs, fun htop => absurd htop (hdeep (depth + 1)), ?_⟩
      rw [step_closing hb]
      exact iht

theorem free_behind (hb : b ∈ brackets) (h : Code s) : Free p (top.step b.1) (s ++ [b.2]) := by
  rw [top, step_opening hb]
  refine (avoids_append _ _).2 ⟨free_of_deep h, ?_⟩
  rw [← after, after_of_code h]
  exact ⟨fun htop => absurd (congrArg Nesting.depth htop) (Nat.succ_ne_zero 0), trivial⟩

theorem free_bracketed (hb : b ∈ brackets) (hp : p b.1 = false) (h : Code s) :
    Free p top (b.1 :: s ++ [b.2]) := ⟨fun _ => hp, free_behind hb h⟩

end Nesting

section Cut

variable {σ : Type} {step : σ → Char → σ} {home : σ} {p : Char → Bool} {a b s t : List Char}
  {c d : Char}

/-- A text is cut in one way only at its first character of a class. -/
theorem first_cut (ha : a.foldl step home = home) (hb : b.foldl step home = home)
    (hpa : Avoids step home p home a) (hpb : Avoids step home p home b) (hc : p c = true)
    (hd : p d = true) (h : a ++ c :: s = b ++ d :: t) : a = b ∧ c :: s = d :: t := by
  rcases List.append_eq_append_iff.1 h with ⟨u, rfl, hu⟩ | ⟨u, rfl, hu⟩
  · cases u with
    | nil => simpa using hu
    | cons e u =>
        rw [List.cons_append, List.cons_eq_cons] at hu
        obtain ⟨rfl, -⟩ := hu
        rw [hpb.of_append_cons ha] at hc
        cases hc
  · cases u with
    | nil => simpa using hu.symm
    | cons e u =>
        rw [List.cons_append, List.cons_eq_cons] at hu
        obtain ⟨rfl, -⟩ := hu
        rw [hpa.of_append_cons hb] at hd
        cases hd

theorem last_cut (ha : a.foldl step home = home) (hb : b.foldl step home = home)
    (hps : Avoids step home p (step home c) s) (hpt : Avoids step home p (step home d) t)
    (hc : p c = true) (hd : p d = true) (h : a ++ c :: s = b ++ d :: t) :
    a = b ∧ c :: s = d :: t := by
  rcases List.append_eq_append_iff.1 h with ⟨u, rfl, hu⟩ | ⟨u, rfl, hu⟩
  · cases u with
    | nil => simpa using hu
    | cons e u =>
        rw [List.cons_append, List.cons_eq_cons] at hu
        obtain ⟨rfl, rfl⟩ := hu
        rw [List.foldl_append, ha, List.foldl_cons] at hb
        rw [hps.of_append_cons hb] at hd
        cases hd
  · cases u with
    | nil => simpa using hu.symm
    | cons e u =>
        rw [List.cons_append, List.cons_eq_cons] at hu
        obtain ⟨rfl, rfl⟩ := hu
        rw [List.foldl_append, hb, List.foldl_cons] at ha
        rw [hpt.of_append_cons ha] at hc
        cases hc

end Cut
end WidgetMarkup.Text
