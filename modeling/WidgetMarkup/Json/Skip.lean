import WidgetMarkup.Json.Number

namespace WidgetMarkup.Json

/-- A bracket that is still open. -/
inductive Bracket
  | list
  | object
  deriving DecidableEq

def Bracket.close : Bracket → Char
  | list => ']'
  | object => '\x7d'

/-- Passes over a key and its colon. -/
def skipKey (s : List Char) : Except Failure (List Char) :=
  match skipSpace s with
  | [] => .error .truncated
  | c :: s => if c = '\x22' then do
      let (_, s) ← stringBody true s
      colon s
    else .error .illFormed

/-- Passes over a value without parts. -/
def skipScalar : List Char → Except Failure (List Char)
  | [] => .error .truncated
  | c :: s =>
    if c = 'n' then skipWord "ull".toList s
    else if c = 't' then skipWord "rue".toList s
    else if c = 'f' then skipWord "alse".toList s
    else if c = '\x22' then (stringBody true s).map Prod.snd
    else if startsNumber c then skipNumber (c :: s)
    else .error .illFormed

def opens? : List Char → Option (Bracket × List Char)
  | '[' :: s => some (.list, s)
  | '\x7b' :: s => some (.object, s)
  | _ => none

/-- What follows an opening bracket or a comma: in an object, a key. -/
def skipEntry : Bracket → List Char → Except Failure (List Char)
  | .list, s => .ok s
  | .object, s => skipKey s

/-- Passes over the rest of the values whose brackets are open. `ended` says that a value has just
ended, so that a comma or a closing bracket comes next. -/
def skipOpen : Nat → Bool → List Bracket → List Char → Except Failure (List Char)
  | 0, _, _, _ => .error .truncated
  | _ + 1, true, [], s => .ok s
  | fuel + 1, true, b :: bs, s =>
    match skipSpace s with
    | [] => .error .truncated
    | c :: s => do
      if c = b.close then skipOpen fuel true bs s
      else if c = ',' then
        let s ← skipEntry b s
        skipOpen fuel false (b :: bs) s
      else .error .illFormed
  | fuel + 1, false, bs, s => do
    match opens? (skipSpace s) with
    | none =>
      let s ← skipScalar (skipSpace s)
      skipOpen fuel true bs s
    | some (b, s) =>
      match skipSpace s with
      | [] => .error .truncated
      | c :: cs =>
        if c = b.close then skipOpen fuel true bs cs
        else
          let s ← skipEntry b (c :: cs)
          skipOpen fuel false (b :: bs) s

/-- Passes over any value, however deep. -/
def skipValue (s : List Char) : Except Failure (List Char) :=
  skipOpen (2 * s.length + 2) false [] s

end WidgetMarkup.Json
