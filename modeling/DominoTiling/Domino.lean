import DominoTiling.Fault

/-!
# Dominoes

A domino has two sides with a pip count each. Which side comes first matters for laying dominoes
out and for the order of a set, never for what a domino covers: `covers` is symmetric in the domino
(`covers_swap`) and in the two cells (`covers_comm`).

`upTo n` is the complete set with pips `0..=n`, each unordered pair once, smaller side first, in
ascending order. `completeSet` is the same set behind the arithmetic of its size.
-/

namespace DominoTiling

structure Domino where
  side1 : Nat
  side2 : Nat
  deriving DecidableEq

namespace Domino

def swap (d : Domino) : Domino := ⟨d.side2, d.side1⟩

/-- A domino covers two cells with pips `p` and `q` if these are its sides, in either order. -/
def covers (d : Domino) (p q : Nat) : Bool :=
  (d.side1 == p && d.side2 == q) || (d.side1 == q && d.side2 == p)

theorem covers_iff {d : Domino} {p q : Nat} :
    d.covers p q = true ↔ (d.side1 = p ∧ d.side2 = q) ∨ (d.side1 = q ∧ d.side2 = p) := by
  simp [covers]

theorem covers_comm (d : Domino) (p q : Nat) : d.covers p q = d.covers q p := by
  rw [Bool.eq_iff_iff, covers_iff, covers_iff]
  exact Or.comm

theorem covers_swap (d : Domino) (p q : Nat) : d.swap.covers p q = d.covers p q := by
  rw [Bool.eq_iff_iff, covers_iff, covers_iff]
  constructor
  · rintro (⟨h1, h2⟩ | ⟨h1, h2⟩)
    · exact .inr ⟨h2, h1⟩
    · exact .inl ⟨h2, h1⟩
  · rintro (⟨h1, h2⟩ | ⟨h1, h2⟩)
    · exact .inr ⟨h2, h1⟩
    · exact .inl ⟨h2, h1⟩

/-- The characters of a domino, its sides in brackets with a bar between them. -/
def chars (d : Domino) : List Char :=
  '[' :: Nat.toDigits 10 d.side1 ++ '|' :: Nat.toDigits 10 d.side2 ++ [']']

def text (d : Domino) : String := String.ofList d.chars

def le (a b : Domino) : Bool :=
  a.side1 < b.side1 || (a.side1 == b.side1 && a.side2 ≤ b.side2)

def sort (ds : List Domino) : List Domino := ds.mergeSort le

/-- A list without the dominoes that repeat the one before them. -/
def dropRepeats : List Domino → List Domino
  | a :: b :: rest => if a = b then dropRepeats (b :: rest) else a :: dropRepeats (b :: rest)
  | ds => ds

/-- The different dominoes of a list in ascending order. A domino and its turned copy are different
unless it is a double. -/
def distinct (ds : List Domino) : List Domino := dropRepeats (sort ds)

/-- The number of dominoes in the complete set with pips `0..=maxPips`, computed in words. -/
def setSize (maxPips : Nat) : Except Fault Nat := do
  let n ← word (maxPips + 1)
  let m ← word (n + 1)
  let product ← word (n * m)
  return product / 2

/-- Every domino with pips `0..=maxPips`, smaller side first, in ascending order. -/
def upTo (maxPips : Nat) : List Domino :=
  (List.range (maxPips + 1)).flatMap fun i =>
    (List.range' i (maxPips + 1 - i)).map (Domino.mk i)

/-- The complete set with pips `0..=maxPips`. A domino takes eight bytes. -/
def completeSet (maxPips : Nat) : Except Fault (List Domino) := do
  let size ← setSize maxPips
  allocate 8 size
  return upTo maxPips

end Domino
end DominoTiling
