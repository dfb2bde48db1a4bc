import WidgetMarkup.Double

namespace WidgetMarkup.Double

/-- The numbers that round to a given one, as bounds on quarters of its last place. The bounds
count themselves exactly when the significand is even. -/
structure Interval where
  low : Nat
  high : Nat
  closed : Bool

/-- Below a power of two the doubles lie twice as dense as above it. -/
def rounding (x : Double) : Interval :=
  let m := x.significand
  let gap := if m = hiddenBit && 1 < x.exponentField then 1 else 2
  ⟨4 * m - gap, 4 * m + 2, m % 2 == 0⟩

/-- Whether `n / tens` lies in the interval, whose bounds count in units of `1 / quarters`. -/
def Interval.holds (i : Interval) (tens quarters n : Nat) : Bool :=
  let low := i.low * tens
  let high := i.high * tens
  if i.closed then low ≤ n * quarters && n * quarters ≤ high
  else low < n * quarters && n * quarters < high

/-- The multiple of `10 ^ -places` next to `significand / 2 ^ shift` that reads back as `x`: the
nearer one where both neighbours do, and the larger one of two equally near. -/
def decimalAt? (x : Double) (shift places : Nat) : Option Nat :=
  let scaled := x.significand * Nat.pow 10 places
  let unit := Nat.pow 2 shift
  let below := scaled / unit
  let rest := scaled % unit
  let reads := x.rounding.holds (Nat.pow 10 places) (4 * unit)
  match reads below, reads (below + 1) with
  | true, true => some (if 2 * rest < unit then below else below + 1)
  | true, false => some below
  | false, true => some (below + 1)
  | false, false => none

/-- The fewest decimal places that read back, tried from `places` on. With `shift` places the
decimal is exact, so the search ends. -/
def fewestPlaces (x : Double) (shift : Nat) : Nat → Nat → Nat × Nat
  | 0, places => (x.significand * Nat.pow 10 places / Nat.pow 2 shift, places)
  | tries + 1, places =>
    match x.decimalAt? shift places with
    | some n => (n, places)
    | none => fewestPlaces x shift tries (places + 1)

/-- `n * 10 ^ -places` in positional notation. -/
def positional (n places : Nat) : String :=
  let unit := Nat.pow 10 places
  let digits := toString (n % unit)
  toString (n / unit) ++ "." ++
    String.ofList (List.replicate (places - digits.length) '0') ++ digits

/-- The magnitude of a number with a fractional part, in the fewest digits that read back. -/
def shortest (x : Double) : String :=
  let shift := (-x.exponent).toNat
  let (n, places) := x.fewestPlaces shift shift 0
  positional n places

end WidgetMarkup.Double
