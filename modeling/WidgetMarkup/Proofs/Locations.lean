import Mathlib.Algebra.Ring.Nat
import WidgetMarkup.Location

namespace WidgetMarkup

open Text

namespace Text

theorem length_le_byteSize (s : List Char) : s.length ≤ byteSize s := by
  induction s with
  | nil => exact Nat.le_refl 0
  | cons c s ih =>
      have hc := c.utf8Size_pos
      rw [List.length_cons, byteSize_cons]
      omega

end Text

namespace Location

variable {l : Location} {before rest text : List Char}

/-- The location stands between two characters of its file, or at one of its ends. -/
structure Splits (l : Location) (before rest : List Char) : Prop where
  content : l.file.content.toList = before ++ rest
  offset : l.offset.toNat = byteSize before

structure Roomy (l : Location) : Prop where
  line : l.line.toNat + byteSize l.file.content.toList < 2 ^ 64
  col : l.col.toNat + byteSize l.file.content.toList < 2 ^ 64

theorem Roomy.size (h : l.Roomy) : byteSize l.file.content.toList < 2 ^ 64 :=
  Nat.lt_of_le_of_lt (Nat.le_add_left _ _) h.line

/-- What holds of the place `m` reached from `l` over `text`, when `rest` is left. -/
structure Reaches (l : Location) (text rest : List Char) (m : Location) : Prop where
  file : m.file = l.file
  boundary : ∃ before, l.Splits before (text ++ rest) ∧ m.Splits (before ++ text) rest
  spanned : Span.text? ⟨l, m⟩ = some (String.ofList text)
  line : m.line.toNat = l.line.toNat + text.count '\n'
  sameLine : '\n' ∉ text → m.col.toNat = l.col.toNat + text.length
  newLine : ∀ lines last, text = lines ++ '\n' :: last → '\n' ∉ last → m.col.toNat = last.length

theorem toNat_add_ofNat {i : UInt64} {n : Nat} (h : i.toNat + n < 2 ^ 64) :
    (i + UInt64.ofNat n).toNat = i.toNat + n := by
  rw [UInt64.toNat_add, UInt64.toNat_ofNat', Nat.add_mod_mod, Nat.mod_eq_of_lt h]

theorem after_cons (l : Location) (c : Char) (s : List Char) :
    l.after (c :: s) = (l.step c).after s := rfl

theorem after_append (l : Location) (s t : List Char) :
    l.after (s ++ t) = (l.after s).after t := List.foldl_append

@[simp] theorem file_step (l : Location) (c : Char) : (l.step c).file = l.file := by
  rw [step]
  split <;> rfl

theorem offset_step (l : Location) (c : Char) :
    (l.step c).offset = l.offset + UInt64.ofNat c.utf8Size := by
  rw [step]
  split <;> rfl

theorem step_newline (l : Location) :
    l.step '\n' = { l with offset := l.offset + 1, line := l.line + 1, col := 0 } := rfl

theorem step_of_ne {c : Char} (h : c ≠ '\n') :
    l.step c = { l with offset := l.offset + UInt64.ofNat c.utf8Size, col := l.col + 1 } := by
  rw [step, if_neg]
  simpa using h

theorem file_after (l : Location) (s : List Char) : (l.after s).file = l.file := by
  induction s generalizing l with
  | nil => rfl
  | cons c s ih => rw [after_cons, ih, file_step]

theorem offset_after (l : Location) (s : List Char) :
    (l.after s).offset = l.offset + UInt64.ofNat (byteSize s) := by
  induction s generalizing l with
  | nil => exact (UInt64.add_zero l.offset).symm
  | cons c s ih =>
      rw [after_cons, ih, offset_step, byteSize_cons, UInt64.ofNat_add, UInt64.add_assoc]

theorem line_after (l : Location) (s : List Char) :
    (l.after s).line = l.line + UInt64.ofNat (s.count '\n') := by
  induction s generalizing l with
  | nil => exact (UInt64.add_zero l.line).symm
  | cons c s ih =>
      rw [after_cons, ih]
      by_cases hc : c = '\n'
      · subst hc
        rw [step_newline, List.count_cons_self, Nat.add_comm, UInt64.ofNat_add, ← UInt64.add_assoc]
        rfl
      · rw [step_of_ne hc, List.count_cons_of_ne hc]

theorem col_after {s : List Char} (h : '\n' ∉ s) (l : Location) :
    (l.after s).col = l.col + UInt64.ofNat s.length := by
  induction s generalizing l with
  | nil => exact (UInt64.add_zero l.col).symm
  | cons c s ih =>
      rw [List.mem_cons, not_or] at h
      rw [after_cons, ih h.2, step_of_ne (Ne.symm h.1), List.length_cons, Nat.add_comm,
        UInt64.ofNat_add, ← UInt64.add_assoc]
      rfl

theorem col_after_newline {last : List Char} (h : '\n' ∉ last) (l : Location) (lines : List Char) :
    (l.after (lines ++ '\n' :: last)).col = UInt64.ofNat last.length := by
  rw [after_append, after_cons, col_after h, step_newline, UInt64.zero_add]

theorem rest?_of_splits (h : l.Splits before rest) : l.rest? = some rest := by
  have hoffset : min l.offset.toNat (byteSize (before ++ rest)) = byteSize before := by
    rw [h.offset, byteSize_append]
    omega
  rw [rest?, h.content, hoffset, splitAtByte_byteSize]
  rfl

theorem advance?_of_splits (h : l.Splits before rest) (n : Nat) :
    l.advance? n = some (l.after (rest.take n)) := by
  rw [advance?, rest?_of_splits h]
  rfl

theorem splits_after (h : l.Splits before (text ++ rest))
    (hsize : byteSize l.file.content.toList < 2 ^ 64) :
    (l.after text).Splits (before ++ text) rest := by
  rw [h.content, byteSize_append, byteSize_append] at hsize
  constructor
  · rw [file_after, h.content, List.append_assoc]
  · rw [offset_after, toNat_add_ofNat, h.offset, byteSize_append]
    rw [h.offset]
    omega

end Location

theorem Span.text?_of_splits {s : Span} {before text rest : List Char}
    (hstart : s.start.Splits before (text ++ rest))
    (hstop : s.stop.offset.toNat = byteSize (before ++ text)) :
    s.text? = some (String.ofList text) := by
  have hend : min (byteSize (before ++ text)) (byteSize (before ++ (text ++ rest))) =
      byteSize (before ++ text) := by
    simp only [byteSize_append]
    omega
  have hbegin : min (byteSize before) (byteSize (before ++ text)) = byteSize before := by
    rw [byteSize_append]
    omega
  have hlength : byteSize (before ++ text) - byteSize before = byteSize text := by
    rw [byteSize_append]
    omega
  rw [text?, hstart.content, hstart.offset, hstop, hend, hbegin, hlength, splitAtByte_byteSize,
    Option.bind_some]
  simp only [splitAtByte_byteSize, Option.map_some]

namespace Location

variable {l : Location} {before rest text : List Char}

theorem reaches_after (h : l.Splits before (text ++ rest)) (hroom : l.Roomy) :
    l.Reaches text rest (l.after text) := by
  have hstop := splits_after h hroom.size
  have hlength : text.length ≤ byteSize l.file.content.toList := by
    have hle := length_le_byteSize text
    rw [h.content, byteSize_append, byteSize_append]
    omega
  refine ⟨file_after l text, ⟨before, h, hstop⟩, Span.text?_of_splits h hstop.offset, ?_, ?_, ?_⟩
  · have hcount := text.count_le_length (a := '\n')
    have hline := hroom.line
    rw [line_after, toNat_add_ofNat]
    omega
  · intro hnone
    have hcol := hroom.col
    rw [col_after hnone, toNat_add_ofNat]
    omega
  · -- behind a line break the column is bounded by the file, whatever it was before
    rintro lines last rfl hlast
    have hsize := hroom.size
    rw [List.length_append, List.length_cons] at hlength
    rw [col_after_newline hlast, UInt64.toNat_ofNat', Nat.mod_eq_of_lt]
    omega

theorem splits_start (file : SourceFile) : (start file).Splits [] file.content.toList := ⟨rfl, rfl⟩

/-- From a boundary every move ends on a boundary, over exactly the characters counted, and two moves
are one move by the sum. A file whose size is a word is the text of the span over the whole of it,
which ends where the longest move from its start does. -/
theorem moves_compose :
    (∀ (l : Location) (before rest : List Char), l.Splits before rest → l.Roomy →
      (∀ n, ∃ m, l.advance? n = some m ∧ l.Reaches (rest.take n) (rest.drop n) m) ∧
        ∀ a b, ((l.advance? a).bind fun m => m.advance? b) = l.advance? (a + b)) ∧
    ∀ file : SourceFile, byteSize file.content.toList < 2 ^ 64 →
      (start file).advance? (2 ^ 64 - 1) = some (Span.whole file).stop ∧
        (Span.whole file).text? = some file.content := by
  constructor
  · intro l before rest h hroom
    have hcut (n : Nat) : l.Splits before (rest.take n ++ rest.drop n) := by
      rw [List.take_append_drop]
      exact h
    constructor
    · intro n
      exact ⟨_, advance?_of_splits h n, reaches_after (hcut n) hroom⟩
    · intro a b
      rw [advance?_of_splits h, advance?_of_splits h, Option.bind_some,
        advance?_of_splits (splits_after (hcut a) hroom.size), List.take_add, after_append]
  · intro file hsize
    have hall : file.content.toList.take (2 ^ 64 - 1) = file.content.toList := by
      have hle := length_le_byteSize file.content.toList
      apply List.take_of_length_le
      omega
    have hstart : (start file).Splits [] (file.content.toList ++ []) := by
      rw [List.append_nil]
      exact splits_start file
    constructor
    · rw [advance?_of_splits (splits_start file), hall]
      rfl
    · rw [Span.text?_of_splits hstart (splits_after hstart hsize).offset, String.ofList_toList]

def greetingFile : SourceFile := ⟨"é\nab", "greeting.html"⟩

def behindLetter : Location := ⟨greetingFile, 2, 0, 1⟩

theorem greeting_moves :
    behindLetter.Splits ['é'] ['\n', 'a', 'b'] ∧ behindLetter.Roomy ∧
      byteSize greetingFile.content.toList < 2 ^ 64 ∧
      (∃ m, behindLetter.advance? 2 = some m ∧ behindLetter.Reaches ['\n', 'a'] ['b'] m) ∧
      ((behindLetter.advance? 1).bind fun m => m.advance? 1) = behindLetter.advance? 2 ∧
      (Span.whole greetingFile).text? = some "é\nab" := by
  have hsplits : behindLetter.Splits ['é'] ['\n', 'a', 'b'] := ⟨by decide, by decide⟩
  have hroomy : behindLetter.Roomy := ⟨by decide, by decide⟩
  have hsize : byteSize greetingFile.content.toList < 2 ^ 64 := by decide
  obtain ⟨hmoves, hwhole⟩ := moves_compose
  obtain ⟨hreach, hsum⟩ := hmoves behindLetter _ _ hsplits hroomy
  exact ⟨hsplits, hroomy, hsize, hreach 2, hsum 1 1, (hwhole greetingFile hsize).2⟩

end Location
end WidgetMarkup
