import WidgetMarkup.Double

namespace WidgetMarkup.Double

/-- The nearest natural number with at most 53 significant bits, the even one of two. -/
def nearest (n : Nat) : Nat :=
  let shift := n.log2 + 1 - 53
  let unit := Nat.pow 2 shift
  let q := n / unit
  let r := n % unit
  if 2 * r < unit then q * unit
  else if unit < 2 * r then (q + 1) * unit
  else if q % 2 = 0 then q * unit
  else (q + 1) * unit

/-- Numbers from here on round to infinity. -/
def infinityBound : Nat := Nat.pow 2 1024 - Nat.pow 2 970

/-- Whether the product of the doubles next to `n` and `10 ^ e` is infinite. -/
def overflows (n : Nat) (e : Int) : Bool :=
  n != 0 && 0 < e && (308 < e || infinityBound ≤ nearest n * nearest (Nat.pow 10 e.toNat))

end WidgetMarkup.Double
