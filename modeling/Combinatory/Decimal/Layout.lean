/-
How a decimal is laid out on the page: positional notation in the middle of the
range, a power of ten outside it.
-/
import Combinatory.Decimal.Shortest

namespace Combinatory.Decimal

/-- The decisions of a number format.  A number whose leading digit stands for
`10 ^ e` is written positionally when `positionalFrom ≤ e < positionalBelow`. -/
structure Layout where
  positionalFrom : Int
  positionalBelow : Int
  exponentPlaces : Nat

/-- Digits with the point after the first `point` of them; a whole number keeps
one zero after its point. -/
def positional (digits : List Char) (point : Int) : List Char :=
  if point ≤ 0 then '0' :: '.' :: (List.replicate (-point).toNat '0' ++ digits)
  else if digits.length ≤ point.toNat then
    digits ++ List.replicate (point.toNat - digits.length) '0' ++ ['.', '0']
  else digits.take point.toNat ++ '.' :: digits.drop point.toNat

/-- The part after the mark `e`: a sign and at least `width` digits. -/
def exponentPart (width : Nat) (e : Int) : List Char :=
  let digits := Nat.toDigits 10 e.natAbs
  (if e < 0 then '-' else '+') ::
    (List.replicate (width - digits.length) '0' ++ digits)

/-- The text of a non-negative decimal. -/
def Layout.write (format : Layout) (d : Decimal) : List Char :=
  let digits := Nat.toDigits 10 d.digits
  let point := (digits.length : Int) + d.scale
  let e := point - 1
  if d.digits = 0 then ['0', '.', '0']
  else if format.positionalFrom ≤ e && e < format.positionalBelow then
    positional digits point
  else
    let fraction := digits.drop 1
    digits.take 1 ++ (if fraction.isEmpty then [] else '.' :: fraction) ++
      'e' :: exponentPart format.exponentPlaces e

/-- The text of a double: its shortest decimal under a sign. -/
def Layout.text (format : Layout) (x : Float) : String :=
  if x.isNaN then "nan"
  else
    let bits := x.toBits
    let sign := if bits >>> 63 = 1 then "-" else ""
    if x.isInf then sign ++ "inf"
    else sign ++ String.ofList (format.write (Binary.ofBits bits).shortest)

end Combinatory.Decimal
