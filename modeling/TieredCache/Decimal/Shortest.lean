import TieredCache.Decimal.Natural

/-!
# Shortest decimals

A finite double stands for every real number that rounds to it.  Its shortest
decimal is the one with the fewest digits among those reals, and the nearest to
the double itself among those.  All comparisons are between natural numbers:
the value and the two ends of its interval are kept over one denominator.
-/

namespace TieredCache.Decimal

/-- A positive number `value / unit` with the interval `least / unit` to
`greatest / unit` of the reals that round to it. -/
structure Interval where
  value : Nat
  least : Nat
  greatest : Nat
  unit : Nat
  closed : Bool
  deriving Repr

def fractionLimit : Nat := 0x10000000000000

def exponentLimit : Nat := 0x800

/-- The interval of a positive finite double.  The gap below a power of two is
half as wide as the one above; the ends round to an even significand. -/
def Interval.ofBits (bits : UInt64) : Interval :=
  let fraction := bits.toNat % fractionLimit
  let exponent := bits.toNat / fractionLimit % exponentLimit
  let significand :=
    if exponent = 0 then fraction else fraction + fractionLimit
  let shift := (if exponent = 0 then 1 else exponent) - 1
  -- quarters of the last place, times two to the `shift - 1076`
  let scale := 1 <<< (shift - 1076)
  { value := 4 * significand * scale
    least := (4 * significand - if fraction = 0 ∧ 1 < exponent then 1 else 2)
      * scale
    greatest := (4 * significand + 2) * scale
    unit := 1 <<< (1076 - shift)
    closed := significand % 2 = 0 }

def Interval.contains (interval : Interval) (coefficient up down : Nat) :
    Bool :=
  let point := coefficient * powerOfTen up * interval.unit
  let least := interval.least * powerOfTen down
  let greatest := interval.greatest * powerOfTen down
  if interval.closed then least ≤ point && point ≤ greatest
  else least < point && point < greatest

/-- The digits of a positive decimal `0.d₁d₂… · 10 ^ point`. -/
structure Positional where
  digits : List Nat
  point : Int
  deriving DecidableEq, Repr

/-- How many digits stand before the point: the least `k` with
`value < 10 ^ k · unit`, counted down from `start` while the value allows. -/
def pointFrom (value unit : Nat) : Nat → Int → Int
  | 0, k => k
  | fuel + 1, k =>
      let below :=
        if 0 < k then decide (value < powerOfTen (k - 1).toNat * unit)
        else decide (value * powerOfTen (1 - k).toNat < unit)
      if below then pointFrom value unit fuel (k - 1) else k

def Interval.point (interval : Interval) : Int :=
  pointFrom interval.value interval.unit 640 310

/-- Where a value half way between two decimals of equal length goes. -/
inductive Tie where
  | up
  | toEven
  deriving DecidableEq, Repr

def Interval.onGrid? (tie : Tie) (interval : Interval) (point : Int)
    (count : Nat) : Option Nat :=
  let exponent := point - count
  let up := exponent.toNat
  let down := (-exponent).toNat
  let scaled := interval.value * powerOfTen down
  let step := interval.unit * powerOfTen up
  let floor := scaled / step
  let twice := 2 * (scaled % step)
  let nearer :=
    if twice < step ∨ twice = step ∧ tie = .toEven ∧ floor % 2 = 0 then floor
    else floor + 1
  let farther := if nearer = floor then floor + 1 else floor
  if interval.contains nearer up down then some nearer
  else if interval.contains farther up down then some farther
  else none

def Interval.shortest (tie : Tie) (interval : Interval) : Positional :=
  let point := interval.point
  let found := (List.range 17).findSome? fun i =>
    (interval.onGrid? tie point (i + 1)).map fun coefficient =>
      (coefficient, i + 1)
  match found with
  | some (coefficient, count) =>
      let ds := Decimal.digits coefficient
      { digits := (ds.reverse.dropWhile (· = 0)).reverse
        point := point + (ds.length - count : Int) }
  | none => { digits := [], point := 0 }

/-! ## Writing doubles -/

/-- How an output writes doubles: where ties go, which exponents of the leading
digit are written with a point in place, whether whole numbers keep `.0`. -/
structure RealStyle where
  tie : Tie
  plainFrom : Int
  plainBelow : Int
  pointZero : Bool
  nan : String
  infinite : String
  deriving DecidableEq, Repr

private def shown (ds : List Nat) : List Char := ds.map digitChar

private def zeros (n : Nat) : List Char := List.replicate n '0'

def RealStyle.layOut (style : RealStyle) (decimal : Positional) : List Char :=
  let ds := shown decimal.digits
  let leading := decimal.point - 1
  if style.plainFrom ≤ leading ∧ leading < style.plainBelow then
    let before := decimal.point.toNat
    if decimal.point ≤ 0 then
      ['0', '.'] ++ zeros (-decimal.point).toNat ++ ds
    else if ds.length ≤ before then
      ds ++ zeros (before - ds.length) ++
        (if style.pointZero then ['.', '0'] else [])
    else ds.take before ++ '.' :: ds.drop before
  else
    let exponent := (if leading < 0 then ['-'] else []) ++ text leading.natAbs
    match ds with
    | [d] => d :: 'e' :: exponent
    | d :: rest => d :: '.' :: rest ++ 'e' :: exponent
    | [] => []

def RealStyle.render (style : RealStyle) (x : Float) : String :=
  if x.isNaN then style.nan
  else
    let bits := x.toBits
    let negative := bits >>> 63 = 1
    let magnitude := bits.toNat % (exponentLimit * fractionLimit)
    let body :=
      if magnitude = 0 then
        (if style.pointZero then ['0', '.', '0'] else ['0'])
      else if magnitude = (exponentLimit - 1) * fractionLimit then
        style.infinite.toList
      else
        let interval := Interval.ofBits magnitude.toUInt64
        style.layOut (interval.shortest style.tie)
    String.ofList ((if negative then ['-'] else []) ++ body)

def messageStyle : RealStyle :=
  { tie := .up, plainFrom := -400, plainBelow := 400, pointZero := false
    nan := "NaN", infinite := "inf" }

end TieredCache.Decimal
