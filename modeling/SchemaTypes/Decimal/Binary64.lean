/-!
# Binary floating point numbers

A finite number of 64-bit binary floating point is a sign, a mantissa below
`2 ^ 53` and a power of two.  Ratios are rounded to the nearest such number, a tie
to the even mantissa; products and quotients by powers of ten are rounded ratios.
-/

namespace SchemaTypes
namespace Decimal

/-- The number `mantissa * 2 ^ exponent`, negative if the flag is set.  The mantissa
is at least `2 ^ 52` unless the exponent is the least one. -/
structure Binary64 where
  negative : Bool
  mantissa : Nat
  exponent : Int
  deriving DecidableEq, Repr, Inhabited

namespace Binary64

def leastExponent : Int := -1074

def greatestExponent : Int := 971

/-- The quotient of two numbers, rounded to the nearest integer and a tie to the
even one. -/
def divideToEven (n d : Nat) : Nat :=
  let q := n / d
  let r := n % d
  if 2 * r < d then q
  else if d < 2 * r then q + 1
  else if q % 2 = 0 then q else q + 1

/-- `n / d` as a ratio of numbers after multiplication by `2 ^ e`. -/
def scale (n d : Nat) (e : Int) : Nat × Nat :=
  if 0 ≤ e then (n <<< e.toNat, d) else (n, d <<< (-e).toNat)

/-- The exponent of the greatest power of two that is at most `n / d`. -/
def floorLog2 (n d : Nat) : Int :=
  let guess : Int := (n.log2 : Int) - (d.log2 : Int)
  let (a, b) := scale n d (-guess)
  if b ≤ a then guess else guess - 1

/-- The number nearest to `n / d`, nothing if it is too large. -/
def ofRatio? (negative : Bool) (n d : Nat) : Option Binary64 :=
  if n = 0 then
    some ⟨negative, 0, leastExponent⟩
  else
    let e := max (floorLog2 n d - 52) leastExponent
    let (a, b) := scale n d (-e)
    let m := divideToEven a b
    let (m, e) := if m = 1 <<< 53 then (1 <<< 52, e + 1) else (m, e)
    if greatestExponent < e then none else some ⟨negative, m, e⟩

def ratio (x : Binary64) : Nat × Nat :=
  scale x.mantissa 1 x.exponent

def isZero (x : Binary64) : Bool :=
  x.mantissa == 0

/-- The number nearest to the product of `x` and the number nearest to `10 ^ e`. -/
def mulPow10? (x : Binary64) (e : Nat) : Option Binary64 := do
  let p ← ofRatio? false (Nat.pow 10 e) 1
  let (n, d) := x.ratio
  let (a, b) := p.ratio
  ofRatio? x.negative (n * a) (d * b)

/-- The number nearest to the quotient of `x` and the number nearest to `10 ^ e`. -/
def divPow10? (x : Binary64) (e : Nat) : Option Binary64 := do
  let p ← ofRatio? false (Nat.pow 10 e) 1
  let (n, d) := x.ratio
  let (a, b) := p.ratio
  ofRatio? x.negative (n * b) (d * a)

def greatestPow10 : Nat := 308

/-- Division by powers of ten in steps, each of them rounded. -/
def divPow10From : Nat -> Binary64 -> Nat -> Option Binary64
  | 0, x, e => divPow10? x e
  | fuel + 1, x, e =>
      if e ≤ greatestPow10 then divPow10? x e
      else if x.isZero then some x
      else do
        let y ← divPow10? x greatestPow10
        divPow10From fuel y (e - greatestPow10)

/-- The number read for `significand * 10 ^ exponent`, nothing if it is too large.
The significand, the power and their product are each rounded. -/
def ofParts? (negative : Bool) (significand : Nat) (exponent : Int) : Option Binary64 := do
  let x ← ofRatio? negative significand 1
  if 0 ≤ exponent then
    let e := exponent.toNat
    if e ≤ greatestPow10 then mulPow10? x e
    else if x.isZero then some x
    else none
  else
    let e := (-exponent).toNat
    divPow10From 4 x e

end Binary64

end Decimal
end SchemaTypes
