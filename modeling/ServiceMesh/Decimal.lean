/-!
# Doubles and their shortest decimals

A finite double without its sign is a mantissa below `2 ^ 53` times a power of two.  Everything is
exact arithmetic on natural numbers: a quotient is rounded once, half to even, so sums of errors
never arise except where the callers themselves round twice.

The decimal written for a double is the shortest one that is read back as the same double, and of
the shortest ones the nearest.  The search tries one digit, two digits and so on: on each decimal
grid only the two neighbours of the double can lie among the reals that round to it.
-/

namespace ServiceMesh.Decimal

/-- The magnitude `mantissa * 2 ^ exponent`. -/
structure Binary64 where
  mantissa : Nat
  exponent : Int
  deriving DecidableEq, Inhabited

/-- The integer nearest to a quotient; a half goes to the even neighbour. -/
def roundHalfEven (num den : Nat) : Nat :=
  let whole := num / den
  let twice := 2 * (num % den)
  if twice < den ∨ (twice = den ∧ whole % 2 = 0) then whole else whole + 1

/-- A quotient divided by `2 ^ scale`, again as numerator and denominator. -/
def scaleDown (num den : Nat) (scale : Int) : Nat × Nat :=
  if 0 ≤ scale then (num, den * Nat.pow 2 scale.toNat)
  else (num * Nat.pow 2 (-scale).toNat, den)

namespace Binary64

def leastExponent : Int := -1074

def greatestExponent : Int := 971

def zero : Binary64 := ⟨0, leastExponent⟩

/-- The double nearest to a quotient, if it does not exceed the greatest finite one. -/
def nearest (num den : Nat) : Option Binary64 :=
  if num = 0 then some zero
  else
    let estimate : Int := (num.log2 : Int) - den.log2 - 52
    let (n, d) := scaleDown num den estimate
    let exponent := max leastExponent (if n < d * Nat.pow 2 52 then estimate - 1 else estimate)
    let (n, d) := scaleDown num den exponent
    let mantissa := roundHalfEven n d
    let (mantissa, exponent) :=
      if mantissa = Nat.pow 2 53 then (Nat.pow 2 52, exponent + 1) else (mantissa, exponent)
    if greatestExponent < exponent then none else some ⟨mantissa, exponent⟩

/-- The exact value as numerator and denominator. -/
def ratio (x : Binary64) : Nat × Nat := scaleDown x.mantissa 1 (-x.exponent)

def mul (x y : Binary64) : Option Binary64 :=
  nearest (x.ratio.1 * y.ratio.1) (x.ratio.2 * y.ratio.2)

def div (x y : Binary64) : Option Binary64 :=
  nearest (x.ratio.1 * y.ratio.2) (x.ratio.2 * y.ratio.1)

end Binary64

/-- The number `coefficient * 10 ^ exponent`. -/
structure Scaled where
  coefficient : Nat
  exponent : Int
  deriving DecidableEq, Inhabited

/-- The reals that round to one double, over a common denominator.  The ends belong to them when
the mantissa is even, because a half goes to the even neighbour. -/
structure RoundingInterval where
  low : Nat
  value : Nat
  high : Nat
  den : Nat
  closed : Bool

def Binary64.interval (x : Binary64) : RoundingInterval :=
  let below := if x.mantissa = Nat.pow 2 52 ∧ Binary64.leastExponent < x.exponent then 1 else 2
  let unit := scaleDown 1 1 (2 - x.exponent)
  { low := (4 * x.mantissa - below) * unit.1
    value := 4 * x.mantissa * unit.1
    high := (4 * x.mantissa + 2) * unit.1
    den := unit.2
    closed := x.mantissa % 2 = 0 }

/-- The number of decimal digits of a natural number. -/
def digitCount (n : Nat) : Nat := (Nat.toDigits 10 n).length

/-- The exponent of the leading digit of a positive quotient. -/
def leadingExponent (num den : Nat) : Int :=
  if den ≤ num then (digitCount (num / den) : Int) - 1
  else
    let places := digitCount (den / num)
    if den ≤ num * Nat.pow 10 (places - 1) then -((places : Int) - 1) else -(places : Int)

namespace RoundingInterval

/-- The multiple of `10 ^ place` that stands for the interval's double, if one lies in the interval:
the neighbour of the double below or above, whichever is nearer, and of two equally near ones the
even one. -/
def onGrid (i : RoundingInterval) (place : Int) : Option Nat :=
  let up := if place < 0 then Nat.pow 10 (-place).toNat else 1
  let step := i.den * (if place < 0 then 1 else Nat.pow 10 place.toNat)
  let below := i.value * up / step
  let holds := fun c ↦
    if i.closed then i.low * up ≤ c * step ∧ c * step ≤ i.high * up
    else i.low * up < c * step ∧ c * step < i.high * up
  if holds below then
    if holds (below + 1) then some (roundHalfEven (i.value * up) step) else some below
  else if holds (below + 1) then some (below + 1)
  else none

/-- The first grid with a hit, from `digits` digits on. -/
def search (i : RoundingInterval) (lead : Int) : (tries digits : Nat) → Scaled
  | 0, digits => ⟨i.value / i.den, lead - digits⟩
  | tries + 1, digits =>
    let place := lead + 1 - digits
    match i.onGrid place with
    | some c => ⟨c, place⟩
    | none => search i lead tries (digits + 1)

end RoundingInterval

/-- Moves the trailing zeros of a coefficient into the exponent. -/
def Scaled.strip (x : Scaled) : Nat → Scaled
  | 0 => x
  | fuel + 1 =>
    if x.coefficient ≠ 0 ∧ x.coefficient % 10 = 0 then
      Scaled.strip ⟨x.coefficient / 10, x.exponent + 1⟩ fuel
    else x

/-- The shortest decimal of a double; seventeen digits always suffice. -/
def Binary64.shortest (x : Binary64) : Scaled :=
  if x.mantissa = 0 then ⟨0, 0⟩
  else
    let i := x.interval
    let found := i.search (leadingExponent i.value i.den) 17 1
    found.strip (digitCount found.coefficient)

namespace Scaled

/-- All digits of an integer, with zeros up to the units. -/
def wholeText (x : Scaled) : String := toString (x.coefficient * Nat.pow 10 x.exponent.toNat)

/-- The form with a decimal point: positional while the point stands at most sixteen digits after
the first digit and the value has fewer than five zeros after the point, else with an exponent and
its sign. -/
def pointText (x : Scaled) : String :=
  let digits := Nat.toDigits 10 x.coefficient
  let point : Int := digits.length + x.exponent
  if 0 ≤ x.exponent ∧ point ≤ 16 then x.wholeText ++ ".0"
  else if 0 < point ∧ point ≤ 16 then
    String.ofList (digits.take point.toNat ++ '.' :: digits.drop point.toNat)
  else if -5 < point ∧ point ≤ 0 then
    String.ofList ('0' :: '.' :: List.replicate (-point).toNat '0' ++ digits)
  else
    let fraction := match digits.drop 1 with
      | [] => []
      | rest => '.' :: rest
    let mark := if 0 < point then "e+" else "e"
    String.ofList (digits.take 1 ++ fraction) ++ mark ++ toString (point - 1)

end Scaled

end ServiceMesh.Decimal
