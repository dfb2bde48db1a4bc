import WidgetMarkup.Field.Scan
import WidgetMarkup.Proofs.Pieces

namespace WidgetMarkup.Field

open Text

theorem slice?_append (s t u : List Char) :
    slice? (s ++ (t ++ u)) (byteSize s) (byteSize s + byteSize t) = some t := by
  rw [slice?, if_pos (Nat.le_add_right _ _), splitAtByte_byteSize, Nat.add_sub_cancel_left]
  simp [splitAtByte_byteSize]

theorem inOperator_cutFrom (prev : Option Char) (q : Quoting) (s : List Char) :
    inOperator prev (cutFrom q s).1.head? = inOperator prev s.head? := by
  cases s with
  | nil => rfl
  | cons c s =>
      rw [cutFrom]
      split
      case isTrue hc => simp [inOperator, hc.2]
      case isFalse => rfl

def Scanned.ofText (s : List Char) : Scanned where
  text := s
  separator := (cutName? .outside none s).map fun r => byteSize r.1
  openQuote := (Quoting.outside.after s).openQuote?

namespace Scanner

/-- The pass has gone through `lead` and then through `text`, with which its current text begins. -/
structure At (p : Scanner) (lead text : List Char) : Prop where
  start : p.start = byteSize lead
  offset : p.offset = byteSize lead + byteSize text
  separator : ∀ n, p.separator = some n → byteSize lead ≤ n

def firstSeparator (p : Scanner) (s : List Char) : Option Nat :=
  p.separator.or ((cutName? p.quoting p.prev s).map fun r => p.offset + byteSize r.1)

variable {p : Scanner} {lead text : List Char}

@[simp] theorem step_quoting (c : Char) (next : Option Char) :
    (p.step c next).quoting = p.quoting.step c := rfl

@[simp] theorem step_start (c : Char) (next : Option Char) : (p.step c next).start = p.start := rfl

@[simp] theorem step_offset (c : Char) (next : Option Char) :
    (p.step c next).offset = p.offset + c.utf8Size := rfl

theorem At.step (h : p.At lead text) (c : Char) (next : Option Char) :
    (p.step c next).At lead (text ++ [c]) where
  start := h.start
  offset := by
    rw [step_offset, h.offset, byteSize_append, Nat.add_assoc]
    rfl
  separator := by
    intro n hn
    rw [Scanner.step, Option.or_eq_some_iff] at hn
    rcases hn with hn | ⟨-, hn⟩
    · exact h.separator n hn
    · rw [Option.ite_none_right_eq_some, Option.some.injEq] at hn
      rw [← hn.2, h.offset]
      exact Nat.le_add_right _ _

theorem At.restart (h : p.At lead text) : p.restart.At (lead ++ text ++ [';']) [] where
  start := by
    rw [Scanner.restart, h.offset, byteSize_append, byteSize_append]
    rfl
  offset := by
    rw [Scanner.restart, h.offset, byteSize_append, byteSize_append]
    rfl
  separator := by
    intro n hn
    cases hn

theorem At.scanned? (h : p.At lead text) (rest : List Char) :
    p.scanned? (lead ++ (text ++ rest)) =
      some ⟨text, p.separator.map (· - byteSize lead), p.quoting.openQuote?⟩ := by
  have hlocal : p.localSeparator? = some (p.separator.map (· - byteSize lead)) := by
    rw [localSeparator?]
    cases hn : p.separator with
    | none => rfl
    | some n => rw [h.start]; exact if_pos (h.separator n hn)
  rw [Scanner.scanned?, h.start, h.offset, slice?_append, hlocal]
  rfl

theorem firstSeparator_nil : p.firstSeparator [] = p.separator := by
  rw [firstSeparator, cutName?, Option.map_none, Option.or_none]

theorem firstSeparator_step (c : Char) {next : Option Char} {s : List Char}
    (hnext : inOperator p.prev next = inOperator p.prev s.head?) :
    (p.step c next).firstSeparator s = p.firstSeparator (c :: s) := by
  rw [firstSeparator, firstSeparator, step, Option.or_assoc, cutName?]
  by_cases hsep : p.quoting = .outside ∧ c = '=' ∧ !inOperator p.prev s.head?
  case pos =>
    have hsep' : p.separates c next = true := by simp [separates, hnext, hsep]
    rw [if_pos hsep, if_pos hsep']
    simp
  case neg =>
    have hsep' : ¬p.separates c next = true := by
      simpa [separates, hnext, and_assoc] using hsep
    rw [if_neg hsep, if_neg hsep', Option.none_or, Option.map_map]
    simp [Function.comp_def, Nat.add_assoc]

theorem firstSeparator_restart (s : List Char) :
    (p.restart.firstSeparator s).map (· - p.restart.start) =
      (cutName? .outside none s).map fun r => byteSize r.1 := by
  have hprev : (some ';').any isOperatorHead = (none : Option Char).any isOperatorHead := by decide
  rw [firstSeparator, restart, Option.none_or, cutName?_congr_prev s hprev, Option.map_map]
  simp [Function.comp_def]

theorem run_eq (h : p.At lead text) (rest : List Char) :
    run (lead ++ (text ++ rest)) p rest =
      some (⟨text ++ (cutFrom p.quoting rest).1,
          (p.firstSeparator (cutFrom p.quoting rest).1).map (· - p.start),
          (p.quoting.after (cutFrom p.quoting rest).1).openQuote?⟩ ::
        (cutFrom p.quoting rest).2.map Scanned.ofText) := by
  induction rest generalizing p lead text with
  | nil =>
      rw [run, h.scanned?, cutFrom, firstSeparator_nil, h.start, List.append_nil]
      rfl
  | cons c cs ih =>
      rw [run, cutFrom]
      split
      case isTrue hc =>
        obtain ⟨hq, rfl⟩ := hc
        -- from here on the semicolon belongs to what lies behind the pass
        have hrun := ih h.restart
        rw [List.nil_append, List.append_assoc, List.append_assoc, List.singleton_append,
          firstSeparator_restart] at hrun
        rw [h.scanned?, hrun, firstSeparator_nil, h.start]
        simp [Scanned.ofText, restart]
      case isFalse hc =>
        -- the pass looks ahead in the value, the reader of one text only to its end
        have hnext := (inOperator_cutFrom p.prev (p.quoting.step c) cs).symm
        have hrun := ih (h.step c cs.head?)
        rw [step_quoting, step_start, firstSeparator_step c hnext] at hrun
        simpa using hrun

end Scanner

/-- The pass agrees with reading the texts between the semicolons one by one. -/
theorem scan_eq (value : List Char) :
    scan value = some ((pieces value).map Scanned.ofText) := by
  have hinit : Scanner.At {} [] [] := ⟨rfl, rfl, by simp⟩
  have hrun := Scanner.run_eq hinit value
  simpa [scan, pieces, Scanner.firstSeparator, Scanned.ofText, Function.comp_def] using hrun

end WidgetMarkup.Field
