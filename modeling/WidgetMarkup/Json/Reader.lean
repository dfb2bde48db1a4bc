import WidgetMarkup.Text.Bytes

namespace WidgetMarkup.Json

open Text

/-- The first thing wrong with a text: it is no JSON, it is JSON of the wrong shape, or it ends too
early. -/
inductive Failure
  | illFormed
  | mismatch
  | truncated
  deriving DecidableEq

/-- Reads a value from the front of a text and returns the text after it. -/
abbrev Reader (α : Type) := List Char → Except Failure (α × List Char)

def isSpace (c : Char) : Bool := c == ' ' || c == '\n' || c == '\t' || c == '\r'

def skipSpace (s : List Char) : List Char := s.dropWhile isSpace

def skipWord : List Char → List Char → Except Failure (List Char)
  | [], s => .ok s
  | _ :: _, [] => .error .truncated
  | w :: ws, c :: cs => if c = w then skipWord ws cs else .error .illFormed

def hexValue? (c : Char) : Option Nat :=
  if c.isDigit then some (c.toNat - '0'.toNat)
  else if 'a' ≤ c ∧ c ≤ 'f' then some (c.toNat - 'a'.toNat + 10)
  else if 'A' ≤ c ∧ c ≤ 'F' then some (c.toNat - 'A'.toNat + 10)
  else none

/-- The four hexadecimal digits of an escape. A text of fewer than four bytes ends too early, even
when the bytes that are left are no digits. -/
def hexUnit (s : List Char) : Except Failure (Nat × List Char) :=
  if byteSize (s.take 4) < 4 then .error .truncated
  else match (s.take 4).mapM hexValue? with
    | some [a, b, c, d] => .ok (((a * 16 + b) * 16 + c) * 16 + d, s.drop 4)
    | _ => .error .illFormed

def isLeading (n : Nat) : Bool := 0xD800 ≤ n && n < 0xDC00

def isTrailing (n : Nat) : Bool := 0xDC00 ≤ n && n < 0xE000

/-- The character of a `\u` escape. The two halves of a surrogate pair are escaped one after the
other, and none stands alone. -/
def hexChar (s : List Char) : Except Failure (Char × List Char) := do
  let (n, s) ← hexUnit s
  if isTrailing n then .error .illFormed
  else if isLeading n then
    let s ← skipWord ['\\', 'u'] s
    let (m, s) ← hexUnit s
    if isTrailing m then .ok (Char.ofNat ((n - 0xD800) * 0x400 + (m - 0xDC00) + 0x10000), s)
    else .error .illFormed
  else .ok (Char.ofNat n, s)

def plainEscape? : Char → Option Char
  | '\x22' => some '\x22'
  | '\\' => some '\\'
  | '/' => some '/'
  | 'b' => some '\x08'
  | 'f' => some '\x0c'
  | 'n' => some '\n'
  | 'r' => some '\r'
  | 't' => some '\t'
  | _ => none

/-- The next character of a string, or nothing at the quote that ends it. A string that is only
skipped may escape half a surrogate pair. -/
def stringChar (skipped : Bool) : List Char → Except Failure (Option Char × List Char)
  | [] => .error .truncated
  | '\x22' :: s => .ok (none, s)
  | '\\' :: [] => .error .truncated
  | '\\' :: 'u' :: s =>
    if skipped then (hexUnit s).map fun (_, s) => (some ' ', s)
    else (hexChar s).map fun (c, s) => (some c, s)
  | '\\' :: c :: s =>
    match plainEscape? c with
    | some d => .ok (some d, s)
    | none => .error .illFormed
  | c :: s => if c.toNat < 0x20 then .error .illFormed else .ok (some c, s)

def stringTail (skipped : Bool) : Nat → Reader (List Char)
  | 0, _ => .error .truncated
  | fuel + 1, s => do
    match ← stringChar skipped s with
    | (none, s) => .ok ([], s)
    | (some c, s) =>
      let (cs, s) ← stringTail skipped fuel s
      .ok (c :: cs, s)

/-- The rest of a string whose opening quote has been read. -/
def stringBody (skipped : Bool) : Reader (List Char) := fun s =>
  stringTail skipped (s.length + 1) s

/-- Reads a colon. -/
def colon (s : List Char) : Except Failure (List Char) :=
  match skipSpace s with
  | [] => .error .truncated
  | c :: s => if c = ':' then .ok s else .error .illFormed

/-- Reads a whole text. -/
def readAll {α : Type} (r : Reader α) (s : String) : Except Failure α := do
  let (a, rest) ← r s.toList
  if (skipSpace rest).isEmpty then .ok a else .error .illFormed

end WidgetMarkup.Json
