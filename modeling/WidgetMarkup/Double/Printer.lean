import WidgetMarkup.Double.Shortest

namespace WidgetMarkup.Double

/-- The nearest signed 64-bit integer. -/
def clamp64 (n : Int) : Int := max (-0x8000000000000000) (min 0x7fffffffffffffff n)

/-- Integers are written in the range of signed 64-bit words, everything else in the fewest digits
that read back, never with an exponent. -/
def code (x : Double) : String :=
  match x.integer? with
  | some n => toString (clamp64 n)
  | none =>
    if x.isNaN then "NaN"
    else (if x.negative then "-" else "") ++ (if x.isFinite then x.shortest else "inf")

end WidgetMarkup.Double
