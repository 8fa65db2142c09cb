import SchemaTypes.Decimal.Binary64

/-!
# Shortest decimals

A number is written with the fewest digits that read back as the number, and of
the decimals with so few digits with the one nearest to it.  Numbers of up to
sixteen places before the point, or up to five zeros behind it, are written
without an exponent.
-/

namespace SchemaTypes
namespace Decimal

structure Scaled where
  digits : Nat
  exponent : Int
  deriving DecidableEq, Repr, Inhabited

/-!
## Choosing the digits
-/

def scale10 (n d : Nat) (e : Int) : Nat × Nat :=
  if 0 ≤ e then (n * Nat.pow 10 e.toNat, d) else (n, d * Nat.pow 10 (-e).toNat)

/-- The bounds of the reals that round to a positive number, as numerators over
four times its least unit, with that unit's exponent. -/
def roundingBounds (m : Nat) (e : Int) : Nat × Nat :=
  let below := if m = 1 <<< 52 && Binary64.leastExponent < e then 1 else 2
  (4 * m - below, 4 * m + 2)

def readsBack (m : Nat) (e : Int) (c : Nat) (g : Int) : Bool :=
  let (low, high) := roundingBounds m e
  -- c * 10 ^ g * 4 against low * 2 ^ e and high * 2 ^ e
  let (n, d) := scale10 (4 * c) 1 g
  let (a, b) := Binary64.scale n d (-e)
  if m % 2 = 0 then low * b ≤ a && a ≤ high * b else low * b < a && a < high * b

/-- The exponent of the greatest power of ten that is at most `n / d`, by search
downwards from a bound. -/
def floorLog10From (n d : Nat) : Nat -> Int -> Int
  | 0, e => e
  | fuel + 1, e =>
      let (a, b) := scale10 n d (-e)
      if b ≤ a then e else floorLog10From n d fuel (e - 1)

def floorLog10 (n d : Nat) : Int :=
  let guess := (Binary64.floorLog2 n d) * 30103 / 100000
  floorLog10From n d 4 (guess + 2)

/-- The decimal of `p` digits nearest to `m * 2 ^ e` among those that read back. -/
def withDigits? (m : Nat) (e : Int) (p : Nat) : Option Scaled :=
  let (n, d) := Binary64.scale m 1 e
  let g := floorLog10 n d - p + 1
  let (a, b) := scale10 n d (-g)
  let low := a / b
  let rest := a % b
  let nearer := if 2 * rest < b || (2 * rest = b && low % 2 = 0) then [low, low + 1] else [low + 1, low]
  (nearer.find? fun c => readsBack m e c g).map fun c => ⟨c, g⟩

/-- The shortest decimal for the positive number `m * 2 ^ e`. -/
def shortestFrom (m : Nat) (e : Int) : Nat -> Nat -> Scaled
  | 0, _ => ⟨m, e⟩
  | fuel + 1, p => (withDigits? m e p).getD (shortestFrom m e fuel (p + 1))

def shortest (m : Nat) (e : Int) : Scaled :=
  shortestFrom m e 17 1

/-!
## Writing the digits
-/

def digitsOf (n : Nat) : List Char :=
  (toString n).toList

/-- The digits without the zeros at their end, with the exponent they then have. -/
def dropZeros (s : List Char) (e : Int) : List Char × Int :=
  let kept := (s.reverse.dropWhile (· == '0')).reverse
  (kept, e + (s.length - kept.length : Nat))

def writeExponent (e : Int) : List Char :=
  if e < 0 then 'e' :: '-' :: digitsOf (-e).toNat else 'e' :: '+' :: digitsOf e.toNat

/-- The text of a decimal with its digits `s` and exponent `e`. -/
def writeDigits (s : List Char) (e : Int) : List Char :=
  let point : Int := s.length + e
  if 0 ≤ e && point ≤ 16 then
    s ++ List.replicate e.toNat '0' ++ ['.', '0']
  else if 0 < point && point ≤ 16 then
    s.take point.toNat ++ '.' :: s.drop point.toNat
  else if -5 < point && point ≤ 0 then
    '0' :: '.' :: List.replicate (-point).toNat '0' ++ s
  else
    match s with
    | [] => []
    | [c] => c :: writeExponent (point - 1)
    | c :: more => c :: '.' :: more ++ writeExponent (point - 1)

namespace Binary64

def write (x : Binary64) : List Char :=
  let sign := if x.negative then ['-'] else []
  if x.isZero then
    sign ++ ['0', '.', '0']
  else
    let d := shortest x.mantissa x.exponent
    let (s, e) := dropZeros (digitsOf d.digits) d.exponent
    sign ++ writeDigits s e

end Binary64

end Decimal
end SchemaTypes
