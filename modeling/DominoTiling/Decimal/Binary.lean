/-!
# Binary floating point

A number of the double format without its sign: a significand below `2 ^ 53` and a power of two from
`2 ^ -1074` on. All arithmetic is exact on natural numbers; `nearest` is the one place where a value
is rounded, to the nearest number of the format and a half to the even significand.
-/

namespace DominoTiling.Decimal

/-- The number `significand * 2 ^ exponent`. -/
structure Binary where
  significand : Nat
  exponent : Int
  deriving DecidableEq

/-- The quotient rounded to the nearest whole number, a half to the even one. -/
def roundDiv (num den : Nat) : Nat :=
  let q := num / den
  let r := num % den
  if 2 * r < den then q
  else if den < 2 * r then q + 1
  else q + q % 2

namespace Binary

def minExponent : Int := -1074

def maxExponent : Int := 971

def zero : Binary := ⟨0, minExponent⟩

/-- The ratio `num / den * 2 ^ e` as numerator and denominator. -/
def scaleRatio (num den : Nat) (e : Int) : Nat × Nat :=
  if 0 ≤ e then (num * Nat.pow 2 e.toNat, den) else (num, den * Nat.pow 2 (-e).toNat)

def ratio (b : Binary) : Nat × Nat := scaleRatio b.significand 1 b.exponent

/-- The power of two at or just below the positive ratio `num / den`. -/
def floorLog2 (num den : Nat) : Int :=
  let k : Int := num.log2 - den.log2
  let (n, d) := scaleRatio num den (-k)
  if d ≤ n then k else k - 1

/-- The number of the format nearest to `num / den`; none if that is past the largest one. -/
def nearest (num den : Nat) : Option Binary :=
  if num = 0 then some zero
  else
    let e := max (floorLog2 num den - 52) minExponent
    let (n, d) := scaleRatio num den (-e)
    let m := roundDiv n d
    let b : Binary := if m = Nat.pow 2 53 then ⟨Nat.pow 2 52, e + 1⟩ else ⟨m, e⟩
    if b.exponent ≤ maxExponent then some b else none

/-- The product, rounded once. -/
def mul (a b : Binary) : Option Binary :=
  nearest (a.ratio.1 * b.ratio.1) (a.ratio.2 * b.ratio.2)

/-- The quotient, rounded once. -/
def div (a b : Binary) : Option Binary :=
  nearest (a.ratio.1 * b.ratio.2) (a.ratio.2 * b.ratio.1)

/-- The product with `10 ^ e` for `e` up to 308; the power is rounded first. -/
def timesTen (f : Binary) (e : Nat) : Option Binary := do f.mul (← nearest (Nat.pow 10 e) 1)

/-- The quotient by `10 ^ e` for `e` up to 308; the power is rounded first. -/
def overTen (f : Binary) (e : Nat) : Option Binary := do f.div (← nearest (Nat.pow 10 e) 1)

/-- `f * 10 ^ exponent`, as many steps of `10 ^ -308` at a time as are left. A number below `2 ^ 64`
is zero after two of them. -/
def shift : Nat → Binary → Int → Option Binary
  | 0, f, _ => some f
  | steps + 1, f, exponent =>
    if 0 ≤ exponent ∧ exponent ≤ 308 then f.timesTen exponent.toNat
    else if -308 ≤ exponent ∧ exponent < 0 then f.overTen (-exponent).toNat
    else if f.significand = 0 then some f
    else if 0 ≤ exponent then none
    else do shift steps (← f.overTen 308) (exponent + 308)

/-- The number read from the decimal `significand * 10 ^ exponent` with `significand < 2 ^ 64`: the
significand is rounded, and then its product with or quotient by a rounded power of ten. None if
that is past the largest number of the format. -/
def ofDecimal (significand : Nat) (exponent : Int) : Option Binary := do
  shift 3 (← nearest significand 1) exponent

end Binary
end DominoTiling.Decimal
