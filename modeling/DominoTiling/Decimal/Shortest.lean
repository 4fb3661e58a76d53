import DominoTiling.Decimal.Binary

/-!
# Shortest decimals

The fewest significant digits that read back as a given binary number. The reals that round to the
number form an interval, its ends included if the significand is even. The grids of decimals with 1,
2, ..., 17 digits are tried in turn; on each only the two neighbours of the number can be in the
interval if any point is, and of two hits the nearer one is taken, of two equally near ones the
even.
-/

namespace DominoTiling.Decimal

/-- A decimal `d₁.d₂d₃... * 10 ^ exponent`, its last digit not a zero. -/
structure Digits where
  digits : List Char
  exponent : Int
  deriving DecidableEq

namespace Binary

/-- Whether `c / d` rounds to `b`. Everything is measured in quarters of the last place; below a
power of two the numbers lie twice as close. -/
def roundsTo (b : Binary) (c d : Nat) : Bool :=
  let quarters := 4 * b.significand
  let below := if b.significand = Nat.pow 2 52 ∧ minExponent < b.exponent then 1 else 2
  let (n, m) := scaleRatio c d (2 - b.exponent)
  let low := (quarters - below) * m
  let high := (quarters + 2) * m
  if b.significand % 2 = 0 then low ≤ n && n ≤ high else low < n && n < high

/-- The power of ten at or just below a positive number. -/
def floorLog10 (b : Binary) : Int :=
  let (n, d) := b.ratio
  if d ≤ n then
    (Nat.toDigits 10 (n / d)).length - 1
  else
    match (List.range 400).find? fun j => d ≤ n * Nat.pow 10 j with
    | some j => -j
    | none => 0

/-- The point of the grid `10 ^ unit` that rounds to `b`, if one does. -/
def gridPoint? (b : Binary) (unit : Int) : Option Nat :=
  let up := if 0 ≤ unit then Nat.pow 10 unit.toNat else 1
  let down := if 0 ≤ unit then 1 else Nat.pow 10 (-unit).toNat
  let (n, d) := b.ratio
  let c := (n * down) / (d * up)
  let rest := (n * down) % (d * up)
  match b.roundsTo (c * up) down, b.roundsTo ((c + 1) * up) down with
  | true, true =>
    if 2 * rest < d * up then some c
    else if d * up < 2 * rest then some (c + 1)
    else some (c + c % 2)
  | true, false => some c
  | false, true => some (c + 1)
  | false, false => none

def significantDigits (c : Nat) : List Char :=
  ((Nat.toDigits 10 c).reverse.dropWhile (· == '0')).reverse

/-- The shortest decimal that reads back as the positive number `b`. -/
def shortest (b : Binary) : Digits :=
  let k := b.floorLog10
  match (List.range 17).findSome? fun (i : Nat) => (b.gridPoint? (k - i)).map fun c => (i, c) with
  | some (i, c) => ⟨significantDigits c, k - i + ((Nat.toDigits 10 c).length - 1)⟩
  | none => ⟨['0'], 0⟩

end Binary

namespace Digits

/-- The exponents that are written positionally, with zeros instead of a power of ten. -/
def positional (e : Int) : Bool := -5 ≤ e && e ≤ 15

/-- An exponent: its sign always, and its digits without a zero in front. -/
def exponentText (e : Int) : List Char :=
  (if e < 0 then '-' else '+') :: Nat.toDigits 10 e.natAbs

/-- The text of a decimal. A positional one always has a digit on both sides of the point. -/
def text (d : Digits) : List Char :=
  if positional d.exponent then
    if 0 ≤ d.exponent then
      let whole := d.exponent.toNat + 1
      let front := d.digits.take whole
      let back := d.digits.drop whole
      front ++ List.replicate (whole - front.length) '0' ++
        '.' :: (if back.isEmpty then ['0'] else back)
    else
      '0' :: '.' :: List.replicate ((-d.exponent).toNat - 1) '0' ++ d.digits
  else
    match d.digits with
    | [] => []
    | [c] => c :: 'e' :: exponentText d.exponent
    | c :: cs => c :: '.' :: cs ++ 'e' :: exponentText d.exponent

end Digits

/-- The text of a signed binary number: its shortest decimal. Zero has a sign too. -/
def floatText (negative : Bool) (b : Binary) : String :=
  let magnitude := if b.significand = 0 then ['0', '.', '0'] else b.shortest.text
  String.ofList (if negative then '-' :: magnitude else magnitude)

end DominoTiling.Decimal
