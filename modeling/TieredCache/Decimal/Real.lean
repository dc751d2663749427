import TieredCache.Decimal.Natural

/-!
# Reading real numbers

A real number is a sign, digits with at most one point among or beside them,
and an exponent, or one of the words for infinity and for an undefined number
in any case.  The double nearest to what is written is read; one too large is
infinite.
-/

namespace TieredCache.Decimal

inductive RealError where
  | empty
  | malformed
  deriving DecidableEq, Repr

def RealError.message : RealError → String
  | .empty => "cannot parse float from empty string"
  | .malformed => "invalid float literal"

def spanDigits (chars : List Char) : List Nat × List Char :=
  let front := chars.takeWhile fun c => (digitOf? c).isSome
  (front.filterMap digitOf?, chars.drop front.length)

def readSign : List Char → Bool × List Char
  | '+' :: rest => (false, rest)
  | '-' :: rest => (true, rest)
  | rest => (false, rest)

/-- Digits of an exponent do not count once those before them have taken it
this far. -/
def exponentCap : Nat := 0x10000

def exponentOfDigits (ds : List Nat) : Nat :=
  ds.foldl (fun value d => if value < exponentCap then 10 * value + d else value) 0

def readExponent? : List Char → Option Int
  | [] => some 0
  | c :: rest =>
      if c = 'e' ∨ c = 'E' then
        let (negative, rest) := readSign rest
        match spanDigits rest with
        | ([], _) => none
        | (ds, []) =>
            let exponent : Int := exponentOfDigits ds
            some (if negative then -exponent else exponent)
        | _ => none
      else none

/-- Numbers half way between two doubles have fewer digits than this. -/
def digitsKept : Nat := 768

/-- The leading digits of a number and, in place of the others, a last one that
says whether any of these counts. -/
def leadingDigits (ds : List Nat) : List Nat :=
  let kept := ds.take digitsKept
  if (ds.drop digitsKept).all (· = 0) then kept else kept ++ [1]

/-- The double nearest to `0.d₁d₂… · 10 ^ point`.  The range of doubles ends well
inside `10 ^ 310` and `10 ^ -330`. -/
def nearestDouble (ds : List Nat) (point : Int) : Float :=
  let zeros := (ds.takeWhile (· = 0)).length
  let point := point - zeros
  let ds := leadingDigits (ds.drop zeros)
  if ds.isEmpty ∨ point < -330 then 0.0
  else if 310 < point then Float.ofBits 0x7FF0000000000000
  else
    let exponent := point - ds.length
    Float.ofScientific (ofDigits ds) (exponent < 0) exponent.natAbs

def readMagnitude? (chars : List Char) : Option Float :=
  let (whole, rest) := spanDigits chars
  let (fraction, rest) :=
    match rest with
    | '.' :: rest => spanDigits rest
    | rest => ([], rest)
  if whole.isEmpty && fraction.isEmpty then none
  else (readExponent? rest).map fun exponent =>
    nearestDouble (whole ++ fraction) (exponent + whole.length)

def readReal (chars : List Char) : Except RealError Float :=
  if chars.isEmpty then .error .empty
  else
    let (negative, rest) := readSign chars
    let magnitude? :=
      match String.ofList (rest.map Char.toLower) with
      | "inf" | "infinity" => some (Float.ofBits 0x7FF0000000000000)
      | "nan" => some (Float.ofBits 0x7FF8000000000000)
      | _ => readMagnitude? rest
    match magnitude? with
    | none => .error .malformed
    | some magnitude => .ok (if negative then -magnitude else magnitude)

end TieredCache.Decimal
