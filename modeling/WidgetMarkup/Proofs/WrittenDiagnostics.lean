import WidgetMarkup.Diagnostic.Json
import WidgetMarkup.Proofs.WrittenRecords

namespace WidgetMarkup

open Json

namespace SourceFile

theorem toList_json (f : SourceFile) : f.json.toList =
    object [⟨"content", quoted f.content.toList⟩, ⟨"url", quoted f.url.toList⟩] := by
  unfold json
  simp [object, Member.chars, toList_quote, quoted, escaped, shortEscape?]

theorem read_json (f : SourceFile) : Reads read f.json.toList f := by
  rw [toList_json, read]
  apply reads_object
  · apply Fills.of rfl rfl (reads_string _)
    apply Fills.of rfl rfl (reads_string _)
    exact .nil _
  · rfl

end SourceFile

namespace Location

theorem toList_json (l : Location) : l.json.toList =
    object [⟨"file", l.file.json.toList⟩, ⟨"offset", Nat.toDigits 10 l.offset.toNat⟩,
      ⟨"line", Nat.toDigits 10 l.line.toNat⟩, ⟨"col", Nat.toDigits 10 l.col.toNat⟩] := by
  unfold json
  simp [object, Member.chars, quoted, escaped, shortEscape?]

theorem read_json (l : Location) : Reads read l.json.toList l := by
  rw [toList_json, read]
  apply reads_object
  · apply Fills.of rfl rfl l.file.read_json
    apply Fills.of rfl rfl (reads_word _)
    apply Fills.of rfl rfl (reads_word _)
    apply Fills.of rfl rfl (reads_word _)
    exact .nil _
  · rfl

end Location

namespace Span

theorem toList_json (s : Span) : s.json.toList =
    object [⟨"start", s.start.json.toList⟩, ⟨"end", s.stop.json.toList⟩] := by
  unfold json
  simp [object, Member.chars, quoted, escaped, shortEscape?]

theorem read_json (s : Span) : Reads read s.json.toList s := by
  rw [toList_json, read]
  apply reads_object
  · apply Fills.of rfl rfl s.start.read_json
    apply Fills.of rfl rfl s.stop.read_json
    exact .nil _
  · rfl

end Span

theorem Level.read_name (l : Level) : Reads read (quoted l.jsonName.toList) l := by
  intro rest _
  have hname : ofName l.jsonName = .ok l := by cases l <;> rfl
  have hstring := string_quoted l.jsonName rest
  rw [quoted_append] at hstring ⊢
  rw [read, skipSpace_cons rfl]
  simp [hstring, hname, bind, Except.bind]

namespace Diagnostic

def spanChars (d : Diagnostic) : List Char := ((d.span.map Span.json).getD "null").toList

theorem read_span (d : Diagnostic) : Reads (nullable Span.read) d.spanChars d.span := by
  rw [spanChars]
  cases d.span with
  | none => exact reads_null _
  | some s =>
      have hread := s.read_json
      rw [s.toList_json] at hread
      change Reads _ s.json.toList _
      rw [s.toList_json]
      exact reads_nullable_object hread

theorem toList_json (d : Diagnostic) : d.json.toList =
    object [⟨"span", d.spanChars⟩, ⟨"msg", quoted d.message.toList⟩,
      ⟨"level", quoted d.level.jsonName.toList⟩] := by
  unfold json spanChars
  simp [object, Member.chars, toList_quote, quoted, escaped, shortEscape?]

theorem read_json (d : Diagnostic) : Reads read d.json.toList d := by
  rw [toList_json, read]
  apply reads_object
  · apply Fills.of rfl rfl d.read_span
    apply Fills.of rfl rfl (reads_string _)
    apply Fills.of rfl rfl d.level.read_name
    exact .nil _
  · rfl

/-- A diagnostic that was written is read back, with its span, its message and its level. -/
theorem ofJson_json (d : Diagnostic) : ofJson d.json = .ok d := by
  have hread := d.read_json.readAll
  rwa [String.ofList_toList] at hread

theorem json_inj {d d' : Diagnostic} (h : d.json = d'.json) : d = d' := by
  have hread := ofJson_json d
  rw [h, ofJson_json] at hread
  exact (Except.ok.inj hread).symm

end Diagnostic
end WidgetMarkup
