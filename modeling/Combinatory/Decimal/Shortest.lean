/-
The shortest decimal of a binary fraction.  A finite double stands for the
interval of reals that round to it; its shortest decimal is the member of that
interval with the fewest digits, and among those the one nearest to the exact
value.  All comparisons are between natural numbers.
-/

namespace Combinatory

/-- The non-negative decimal `digits * 10 ^ scale`. -/
structure Decimal where
  digits : Nat
  scale : Int
  deriving DecidableEq

def Decimal.places (n : Nat) : Nat := (Nat.toDigits 10 n).length

def Decimal.strip (d : Decimal) : Decimal :=
  if h : d.digits ≠ 0 ∧ d.digits % 10 = 0 then
    strip ⟨d.digits / 10, d.scale + 1⟩
  else d
termination_by d.digits
decreasing_by omega

/-- A finite non-negative double, `significand * 2 ^ exponent`.  Below a power
of two the next smaller double is only half as far away as the next larger
one. -/
structure Binary where
  significand : Nat
  exponent : Int
  narrowBelow : Bool

/-- The magnitude held in the bits of a finite double. -/
def Binary.ofBits (bits : UInt64) : Binary :=
  let field := ((bits >>> 52) &&& 0x7FF).toNat
  let fraction := (bits &&& 0xFFFFFFFFFFFFF).toNat
  if field = 0 then ⟨fraction, -1074, false⟩
  else ⟨0x10000000000000 + fraction, (field : Int) - 1075,
    fraction == 0 && field > 1⟩

/-- The same value written exactly in decimal. -/
def Binary.exact (x : Binary) : Decimal :=
  if 0 ≤ x.exponent then ⟨x.significand * Nat.pow 2 x.exponent.toNat, 0⟩
  else ⟨x.significand * Nat.pow 5 (-x.exponent).toNat, x.exponent⟩

def Decimal.compareBinary (d : Decimal) (n : Nat) (j : Int) : Ordering :=
  compare (d.digits * Nat.pow 10 d.scale.toNat * Nat.pow 2 (-j).toNat)
    (n * Nat.pow 2 j.toNat * Nat.pow 10 (-d.scale).toNat)

/-- Whether a decimal rounds to the double.  The ends of the interval belong to
it when the significand is even. -/
def Binary.covers (x : Binary) (d : Decimal) : Bool :=
  let below :=
    if x.narrowBelow then 4 * x.significand - 1 else 4 * x.significand - 2
  let low := d.compareBinary below (x.exponent - 2)
  let high := d.compareBinary (4 * x.significand + 2) (x.exponent - 2)
  let closed := x.significand % 2 == 0
  (low == .gt || closed && low == .eq) && (high == .lt || closed && high == .eq)

/-- A decimal of at most `n` digits that rounds to the double, if there is one.
Only the two neighbours of the exact value on that grid can be; a tie between
them goes to the even one. -/
def Binary.atPlaces? (x : Binary) (n : Nat) : Option Decimal :=
  let exact := x.exact
  let dropped := Decimal.places exact.digits - n
  let unit := Nat.pow 10 dropped
  let low : Decimal := ⟨exact.digits / unit, exact.scale + dropped⟩
  let high : Decimal := ⟨low.digits + 1, low.scale⟩
  match x.covers low, x.covers high with
  | false, false => none
  | true, false => some low
  | false, true => some high
  | true, true =>
    match compare (2 * exact.digits) ((low.digits + high.digits) * unit) with
    | .lt => some low
    | .gt => some high
    | .eq => some (if low.digits % 2 = 0 then low else high)

/-- The shortest decimal of a double.  Seventeen digits always suffice. -/
def Binary.shortest (x : Binary) : Decimal :=
  (((List.range 17).findSome? fun n => x.atPlaces? (n + 1)).getD x.exact).strip

/-- The double nearest to `digits * 10 ^ scale`; magnitudes outside the range of
doubles are recognised by their place count. -/
def Decimal.nearest (d : Decimal) : Float :=
  if d.digits = 0 then 0.0
  else
    let top := (Decimal.places d.digits : Int) + d.scale
    if 310 < top then 1.0 / 0.0
    else if top < -330 then 0.0
    else Float.ofScientific d.digits (decide (d.scale < 0)) d.scale.natAbs

end Combinatory
