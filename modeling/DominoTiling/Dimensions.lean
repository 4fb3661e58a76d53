import DominoTiling.PuzzleError

/-!
# Dimensions

Which sizes a board laid out of dominoes can have. Every row is filled by column pairs, so there
must be an even number of columns; an odd number of cells is reported as such even where the columns
are odd too. The largest pip count for a size is one below its longer side.
-/

namespace DominoTiling

/-- Refuses a size that column pairs cannot fill. -/
def checkDimensions (rows cols : Nat) : Except PuzzleError Unit :=
  if rows = 0 ∨ cols = 0 then .error (.nonPositiveDimensions rows cols)
  else if 2 ^ 64 ≤ rows * cols then .error (.tooLarge rows cols)
  else if rows * cols % 2 ≠ 0 then .error (.oddCellCount rows cols)
  else if cols % 2 ≠ 0 then .error (.oddColumnCount rows cols)
  else .ok ()

/-- The largest pip count for a board of this size. A pip count has 32 bits. -/
def maxPipsFor (rows cols : Nat) : Except PuzzleError Nat :=
  if rows = 0 ∨ cols = 0 then .error (.nonPositiveDimensions rows cols)
  else if max rows cols - 1 < 2 ^ 32 then .ok (max rows cols - 1)
  else .error (.tooLarge rows cols)

theorem checkDimensions_eq_ok_iff {rows cols : Nat} :
    checkDimensions rows cols = .ok () ↔
      1 ≤ rows ∧ 1 ≤ cols ∧ rows * cols < 2 ^ 64 ∧ cols % 2 = 0 := by
  unfold checkDimensions
  split
  · exact ⟨fun h => (by cases h), fun h => by omega⟩
  split
  · exact ⟨fun h => (by cases h), fun h => by omega⟩
  split
  · rename_i hodd
    refine ⟨fun h => (by cases h), fun h => absurd ?_ hodd⟩
    rw [Nat.mul_mod, h.2.2.2, Nat.mul_zero, Nat.zero_mod]
  split
  · exact ⟨fun h => (by cases h), fun h => by omega⟩
  · exact ⟨fun _ => by omega, fun _ => rfl⟩

theorem maxPipsFor_eq_ok_iff {rows cols n : Nat} :
    maxPipsFor rows cols = .ok n ↔
      1 ≤ rows ∧ 1 ≤ cols ∧ max rows cols ≤ 2 ^ 32 ∧ n = max rows cols - 1 := by
  unfold maxPipsFor
  split
  · exact ⟨fun h => (by cases h), fun h => by omega⟩
  split
  · rw [Except.ok.injEq]
    exact ⟨fun h => by omega, fun h => h.2.2.2.symm⟩
  · exact ⟨fun h => (by cases h), fun h => by omega⟩

theorem maxPipsFor_of_lt {rows cols : Nat} (hrows : 1 ≤ rows) (hcols : 1 ≤ cols)
    (h : max rows cols < 2 ^ 32) : maxPipsFor rows cols = .ok (max rows cols - 1) :=
  maxPipsFor_eq_ok_iff.2 ⟨hrows, hcols, Nat.le_of_lt h, rfl⟩

end DominoTiling
