import WidgetMarkup.Json.Skip

namespace WidgetMarkup.Json

variable {α β σ : Type}

/-- A value of another kind than the one wanted. It is read to its end when it is a word, a number
or a string, and only then found to be of the wrong kind. -/
def wrongKind : List Char → Failure
  | [] => .truncated
  | c :: s =>
    let after (r : Except Failure Unit) : Failure := match r with
      | .ok _ => .mismatch
      | .error e => e
    if c = 'n' then after ((skipWord "ull".toList s).map fun _ => ())
    else if c = 't' then after ((skipWord "rue".toList s).map fun _ => ())
    else if c = 'f' then after ((skipWord "alse".toList s).map fun _ => ())
    else if c = '\x22' then after ((stringBody false s).map fun _ => ())
    else if startsNumber c then after ((number (c :: s)).map fun _ => ())
    else if c = '[' ∨ c = '\x7b' then .mismatch
    else .illFormed

def string : Reader String := fun s =>
  match skipSpace s with
  | '\x22' :: s => (stringBody false s).map fun (cs, s) => (String.ofList cs, s)
  | s => .error (wrongKind s)

/-- A natural number of at most 64 bits. -/
def word : Reader UInt64 := fun s =>
  match skipSpace s with
  | [] => .error .truncated
  | c :: s =>
    if startsNumber c then do
      match ← number (c :: s) with
      | (some n, s) => .ok (UInt64.ofNat n, s)
      | (none, _) => .error .mismatch
    else .error (wrongKind (c :: s))

def null : Reader Unit := fun s =>
  match skipSpace s with
  | 'n' :: s => (skipWord "ull".toList s).map fun s => ((), s)
  | s => .error (wrongKind s)

def nullable (r : Reader α) : Reader (Option α) := fun s =>
  match skipSpace s with
  | 'n' :: s => (skipWord "ull".toList s).map fun s => (none, s)
  | s => (r s).map fun (a, s) => (some a, s)

/-- A field of a record that is being read. -/
structure RecordField (σ : Type) where
  key : String
  isSet : σ → Bool
  read : σ → Reader σ

def RecordField.of (key : String) (r : Reader β) (get : σ → Option β) (put : σ → β → σ) :
    RecordField σ where
  key := key
  isSet d := (get d).isSome
  read d := fun s => (r s).map fun (b, s) => (put d b, s)

variable (fields : List (RecordField σ))

/-- The field of a key. A key may stand once, and keys of no field are passed over. -/
def member (d : σ) (s : List Char) : Except Failure (σ × List Char) := do
  let (key, s) ← string s
  match fields.find? fun f => f.key == key with
  | none =>
    let s ← colon s
    let s ← skipValue s
    .ok (d, s)
  | some f =>
    if f.isSet d then .error .mismatch
    else
      let s ← colon s
      f.read d s

/-- The start of the next key, which is a string. -/
def nextKey (s : List Char) : Except Failure (List Char) :=
  match skipSpace s with
  | [] => .error .truncated
  | c :: s => if c = '\x22' then .ok (c :: s) else .error .illFormed

/-- The members up to the closing brace, and the text after it. -/
def members : Nat → Bool → σ → Reader σ
  | 0, _, _, _ => .error .truncated
  | fuel + 1, isFirst, d, s =>
    match skipSpace s with
    | [] => .error .truncated
    | c :: s => do
      if c = '\x7d' then .ok (d, s)
      else
        let s ← if isFirst then nextKey (c :: s)
          else if c = ',' then nextKey s
          else .error .illFormed
        let (d, s) ← member fields d s
        members fuel false d s

/-- The start of the next item after a comma. -/
def nextItem (s : List Char) : Except Failure (List Char) :=
  match skipSpace s with
  | [] => .error .truncated
  | c :: s => if c = ']' then .error .illFormed else .ok (c :: s)

/-- The items of a record that is written as a list. It may end early. -/
def items : Bool → List (RecordField σ) → σ → Reader σ
  | _, [], d, s => .ok (d, s)
  | isFirst, f :: fs, d, s =>
    match skipSpace s with
    | [] => .error .truncated
    | c :: s => do
      if c = ']' then .ok (d, c :: s)
      else
        let s ← if isFirst then .ok (c :: s)
          else if c = ',' then nextItem s
          else .error .illFormed
        let (d, s) ← f.read d s
        items false fs d s

def listEnd (s : List Char) : Except Failure (List Char) :=
  match skipSpace s with
  | [] => .error .truncated
  | c :: s => if c = ']' then .ok s else .error .illFormed

/-- A record, written as an object or as the list of its fields. `finish` refuses a record with
too few fields. -/
def record (empty : σ) (finish : σ → Option α) : Reader α := fun s =>
  let done (d : σ) : Except Failure α := match finish d with
    | some a => .ok a
    | none => .error .mismatch
  match skipSpace s with
  | '\x7b' :: s => do
    let (d, s) ← members fields (s.length + 1) true empty s
    let a ← done d
    .ok (a, s)
  | '[' :: s => do
    let (d, s) ← items true fields empty s
    let a ← done d
    let s ← listEnd s
    .ok (a, s)
  | s => .error (wrongKind s)

end WidgetMarkup.Json
