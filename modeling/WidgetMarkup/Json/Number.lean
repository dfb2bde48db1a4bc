import WidgetMarkup.Double.Nearest
import WidgetMarkup.Json.Reader

namespace WidgetMarkup.Json

/-- The first number that does not fit into 64 bits. -/
def wordBound : Nat := 0x10000000000000000

/-- A number as far as it has been read. Digits that no longer fit into 64 bits only raise the
exponent, or count for nothing behind the point. -/
structure Decimal where
  significand : Nat := 0
  exponent : Int := 0
  full : Bool := false

namespace Decimal

def digit (c : Char) : Nat := c.toNat - '0'.toNat

def pushInteger (d : Decimal) (c : Char) : Decimal :=
  let n := d.significand * 10 + digit c
  if d.full || wordBound ≤ n then { d with full := true, exponent := d.exponent + 1 }
  else { d with significand := n }

def pushFraction (d : Decimal) (c : Char) : Decimal :=
  let n := d.significand * 10 + digit c
  if d.full || wordBound ≤ n then { d with full := true }
  else { d with significand := n, exponent := d.exponent - 1 }

end Decimal

/-- At least one digit. `early` is the failure of a text that ends before it. -/
def digits (early : Failure) : Reader (List Char) := fun s =>
  match s.takeWhile Char.isDigit, s with
  | [], [] => .error early
  | [], _ :: _ => .error .illFormed
  | ds, _ => .ok (ds, s.dropWhile Char.isDigit)

/-- The digits before the point. A zero in front stands alone. -/
def integerDigits (early : Failure) : Reader (List Char) := fun s => do
  let (ds, s) ← digits early s
  match ds with
  | '0' :: _ :: _ => .error .illFormed
  | _ => .ok (ds, s)

def fractionDigits? (early : Failure) : Reader (Option (List Char))
  | '.' :: s => (digits early s).map fun (ds, s) => (some ds, s)
  | s => .ok (none, s)

/-- The sign and the digits of an exponent. -/
def exponent? (early : Failure) : Reader (Option (Bool × List Char))
  | [] => .ok (none, [])
  | c :: s =>
    if c == 'e' || c == 'E' then
      let (negative, s) := match s with
        | '-' :: s => (true, s)
        | '+' :: s => (false, s)
        | s => (false, s)
      (digits early s).map fun (ds, s) => (some (negative, ds), s)
    else .ok (none, c :: s)

/-- Reads a number without a sign. The result is its value when it is a natural number of at most
64 bits, written as one. -/
def unsigned : Reader (Option Nat) := fun s => do
  let (ds, s) ← integerDigits .truncated s
  let whole := ds.foldl Decimal.pushInteger {}
  let (fraction, s) ← fractionDigits? .truncated s
  let (power, s) ← exponent? .truncated s
  if fraction.isNone && power.isNone && !whole.full then .ok (some whole.significand, s)
  else
    let d := (fraction.getD []).foldl Decimal.pushFraction { whole with full := false }
    let shift : Int := match power with
      | none => 0
      | some (negative, ds) =>
        let n := ds.foldl (fun n c => n * 10 + Decimal.digit c) 0
        if negative then -n else n
    if Double.overflows d.significand (d.exponent + shift) then .error .illFormed
    else .ok (none, s)

def number : Reader (Option Nat)
  | '-' :: s => (unsigned s).map fun (_, s) => (none, s)
  | s => unsigned s

/-- Passes over a number without asking for its value. -/
def skipNumber (s : List Char) : Except Failure (List Char) := do
  let s := match s with
    | '-' :: s => s
    | s => s
  let (_, s) ← integerDigits .illFormed s
  let (_, s) ← fractionDigits? .illFormed s
  let (_, s) ← exponent? .illFormed s
  .ok s

def startsNumber (c : Char) : Bool := c == '-' || c.isDigit

end WidgetMarkup.Json
