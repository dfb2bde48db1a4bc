import WidgetMarkup.Field.Piece
import WidgetMarkup.Text.Bytes

namespace WidgetMarkup.Field

open Text

/-- The text from byte `start` up to byte `stop`; nothing when one of them lies inside a
character, past the end or in the wrong order. -/
def slice? (s : List Char) (start stop : Nat) : Option (List Char) :=
  if start ≤ stop then do
    let r ← splitAtByte start s
    (splitAtByte (stop - start) r.2).map Prod.fst
  else none

/-- One text between semicolons, the byte of it where its name ends, and the quote that is still
open at its end. -/
structure Scanned where
  text : List Char
  separator : Option Nat
  openQuote : Option Char
  deriving DecidableEq

def Scanned.piece? (f : Scanned) : Option Piece :=
  match f.openQuote, f.separator with
  | some q, _ => some (.unclosed q f.text)
  | none, none => some (.bare f.text)
  | none, some n => do
    let name ← splitAtByte n f.text
    let value ← splitAtByte (n + 1) f.text
    some (.named name.1 value.2)

/-- Where one pass over a value stands. All numbers are bytes of the value: where the current text
begins, where the next character begins, and the first separator of the current text. -/
structure Scanner where
  quoting : Quoting := .outside
  prev : Option Char := none
  start : Nat := 0
  offset : Nat := 0
  separator : Option Nat := none

namespace Scanner

def separates (p : Scanner) (c : Char) (next : Option Char) : Bool :=
  p.quoting == .outside && c == '=' && !inOperator p.prev next

def step (p : Scanner) (c : Char) (next : Option Char) : Scanner where
  quoting := p.quoting.step c
  prev := some c
  start := p.start
  offset := p.offset + c.utf8Size
  separator := p.separator.or (if p.separates c next then some p.offset else none)

def restart (p : Scanner) : Scanner where
  prev := some ';'
  start := p.offset + 1
  offset := p.offset + 1

def localSeparator? (p : Scanner) : Option (Option Nat) :=
  match p.separator with
  | none => some none
  | some n => if p.start ≤ n then some (some (n - p.start)) else none

def scanned? (value : List Char) (p : Scanner) : Option Scanned := do
  let text ← slice? value p.start p.offset
  let separator ← p.localSeparator?
  some ⟨text, separator, p.quoting.openQuote?⟩

def run (value : List Char) : Scanner → List Char → Option (List Scanned)
  | p, [] => (p.scanned? value).map ([·])
  | p, c :: cs =>
    if p.quoting = .outside ∧ c = ';' then do
      let f ← p.scanned? value
      let fs ← run value p.restart cs
      some (f :: fs)
    else run value (p.step c cs.head?) cs

end Scanner

/-- One pass over a value that notes for each text between semicolons where its name ends and
which quote it leaves open. Nothing when a cut falls inside a character or an offset would be
negative. -/
def scan (value : List Char) : Option (List Scanned) := Scanner.run value {} value

end WidgetMarkup.Field
