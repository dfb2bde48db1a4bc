import WidgetMarkup.Text.Bytes

namespace WidgetMarkup

open Text

structure SourceFile where
  content : String
  url : String
  deriving DecidableEq

/-- A place in a file: the offset counts bytes, the column counts characters since the last
line break. -/
structure Location where
  file : SourceFile
  offset : UInt64
  line : UInt64
  col : UInt64
  deriving DecidableEq

namespace Location

def start (file : SourceFile) : Location := ⟨file, 0, 0, 0⟩

def step (l : Location) (c : Char) : Location :=
  let offset := l.offset + UInt64.ofNat c.utf8Size
  if c == '\n' then { l with offset, line := l.line + 1, col := 0 }
  else { l with offset, col := l.col + 1 }

/-- The place reached by reading `s`. -/
def after (l : Location) (s : List Char) : Location := s.foldl step l

/-- The text from the location to the end of the file. -/
def rest? (l : Location) : Option (List Char) :=
  let s := l.file.content.toList
  (splitAtByte (min l.offset.toNat (byteSize s)) s).map Prod.snd

/-- The place `n` characters further on, at most the end of the file. There is none when the
location lies inside a character. -/
def advance? (l : Location) (n : Nat) : Option Location :=
  l.rest?.map fun s => l.after (s.take n)

def display (l : Location) : String :=
  l.file.url ++ "@" ++ toString l.line.toNat ++ ":" ++ toString l.col.toNat

end Location

structure Span where
  start : Location
  stop : Location
  deriving DecidableEq

namespace Span

def whole (file : SourceFile) : Span :=
  ⟨.start file, (Location.start file).after file.content.toList⟩

/-- The text between the two ends, in the file of the first. Ends past the file count as its end,
and there is no text when an end lies inside a character. -/
def text? (s : Span) : Option String :=
  let content := s.start.file.content.toList
  let stop := min s.stop.offset.toNat (byteSize content)
  let start := min s.start.offset.toNat stop
  (splitAtByte start content).bind fun (_, rest) =>
    (splitAtByte (stop - start) rest).map fun (text, _) => String.ofList text

end Span
end WidgetMarkup
