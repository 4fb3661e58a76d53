import DominoTiling.Proofs.BoardGrammar
import DominoTiling.Proofs.Pairing
import DominoTiling.Proofs.Refusals

/-!
# The largest pips a set can have

A pip count has 32 bits, and so have the pips of every size that is not refused and of every board
that is read from a text. The size of the set is computed in words from one more than the largest
pip count, as a product that is halved at the end. For the largest pip count of all that product is
one bit too long, although the size itself is not: so there, and only there, making or solving a board
stops because a set is too large to be counted (`overflow_at_largest`).
-/

namespace DominoTiling
open Generator Search
variable {rows cols n : Nat} {b : Board}

theorem Domino.setSize_eq (h : n < 2 ^ 32) :
    setSize n = if n = 2 ^ 32 - 1 then .error .overflow else .ok ((n + 1) * (n + 2) / 2) := by
  split
  · rename_i hlargest
    rw [hlargest, setSize_largest]
  · rw [setSize_of_lt (by omega), length_upTo]

/-! ### Sizes -/

section
variable (hdimensions : checkDimensions rows cols = .ok ())
  (hmax : maxPipsFor rows cols = .ok n)

include hmax

theorem lt_of_maxPipsFor : n < 2 ^ 32 := by
  obtain ⟨-, -, hle, rfl⟩ := maxPipsFor_eq_ok_iff.1 hmax
  omega

theorem max_lt_of_maxPipsFor (hn : n ≠ 2 ^ 32 - 1) : max rows cols < 2 ^ 32 := by
  obtain ⟨-, -, hle, rfl⟩ := maxPipsFor_eq_ok_iff.1 hmax
  omega

include hdimensions

theorem setFor_largest (hn : n = 2 ^ 32 - 1) : setFor rows cols = .error (.fault .overflow) := by
  obtain ⟨-, -, hle, hside⟩ := maxPipsFor_eq_ok_iff.1 hmax
  rw [setFor_of_dimensions hdimensions hle, ← hside, hn, Domino.completeSet_largest]
  rfl

theorem synthesize_overflow_iff (source : WordSource) :
    synthesize rows cols source = .error (.fault .overflow) ↔ n = 2 ^ 32 - 1 := by
  constructor
  · intro h
    by_contra hn
    rcases synthesize_of_pips hdimensions (max_lt_of_maxPipsFor hmax hn) source with
      ⟨b, source', hb, -⟩ | ⟨hb, -⟩ | ⟨hb, -⟩
    all_goals
      rw [hb] at h
      cases h
  · intro hn
    exact synthesize_of_setFor_error (setFor_largest hdimensions hmax hn)

theorem largest_of_enumerate_overflow (h : enumerate rows cols = .error (.fault .overflow)) :
    n = 2 ^ 32 - 1 ∨ 2 ^ 64 ≤ walkLength rows cols := by
  by_cases hn : n = 2 ^ 32 - 1
  · exact .inl hn
  · rcases enumerate_of_pips hdimensions (max_lt_of_maxPipsFor hmax hn) with
      ⟨s, -, -, hs⟩ | ⟨hs, -⟩
    · rw [hs] at h
      split at h
      · cases h
      · rename_i hwalk
        exact .inr (Nat.le_of_not_lt hwalk)
    · rw [hs] at h
      cases h

end

/-! ### Boards -/

theorem Board.Proper.maxPips_lt (h : b.Proper) : b.maxPips < 2 ^ 32 := by
  have hle : b.maxPips ≤ 2 ^ 32 - 1 := Board.maxPips_le_iff_cells.2 fun n hn =>
    Nat.le_pred_of_lt (h.pips_lt n (Array.mem_toList_iff.1 hn))
  omega

theorem Search.solveBoard_largest (hb : b.maxPips = 2 ^ 32 - 1) :
    solveBoard b = .error (.fault .overflow) := by
  rw [solveBoard, hb, Domino.completeSet_largest]
  rfl

/-- With smaller pips than the largest, only the count of the steps can take more than a word. -/
theorem Search.not_stepsFit_of_overflow (hb : b.Proper) (hn : b.maxPips ≠ 2 ^ 32 - 1)
    (h : solveBoard b = .error (.fault .overflow)) :
    ∃ p, Placement.forBoard b = .ok p ∧ ¬ StepsFit b (Domino.upTo b.maxPips) p 0 0 := by
  have hpips := hb.maxPips_lt
  rcases Domino.completeSet_cases (n := b.maxPips) (by omega) with hset | ⟨hset, -⟩
  · rcases Nat.lt_or_ge (16 * (b.rows * b.cols)) (2 ^ 63) with hbytes | hbytes
    · obtain ⟨p, hp⟩ := Placement.exists_forBoard hbytes
      refine ⟨p, hp, ?_⟩
      intro hsteps
      obtain ⟨v, hv⟩ : ∃ v, solve b p (Domino.upTo b.maxPips) = .ok v :=
        exists_solveFrom hb.cols_pos (Placement.at?_forBoard hp).1 (.inl (by decide)) hsteps
      rw [solveBoard_eq hset hp, hv] at h
      cases h
    · rw [solveBoard_of_placement_error hset (Placement.forBoard_of_le hbytes)] at h
      cases h
  · rw [solveBoard_of_set_error hset] at h
    cases h

/-! ### What the limits leave out -/

/-- The size of a set is computed for all pip counts of 32 bits but the largest. This one passes the
checks of sizes and of board texts, and what needs its set then stops. With every other one that passes
them, making and solving boards never stops because the arithmetic of a set takes more than a word. -/
theorem overflow_at_largest (rows cols : Nat) (source : WordSource) (text : String) :
    (∀ n < 2 ^ 32, Domino.setSize n =
      if n = 2 ^ 32 - 1 then .error .overflow else .ok ((n + 1) * (n + 2) / 2)) ∧
    (∀ n, checkDimensions rows cols = .ok () → maxPipsFor rows cols = .ok n →
      n < 2 ^ 32 ∧
      (synthesize rows cols source = .error (.fault .overflow) ↔ n = 2 ^ 32 - 1) ∧
      (n = 2 ^ 32 - 1 → enumerate rows cols = .error (.fault .overflow)) ∧
      (enumerate rows cols = .error (.fault .overflow) →
        n = 2 ^ 32 - 1 ∨ 2 ^ 64 ≤ walkLength rows cols)) ∧
    ∀ b, Board.parse text = .ok b →
      b.maxPips < 2 ^ 32 ∧
      (b.maxPips = 2 ^ 32 - 1 → solveBoard b = .error (.fault .overflow)) ∧
      (b.maxPips ≠ 2 ^ 32 - 1 → solveBoard b = .error (.fault .overflow) →
        ∃ p, Placement.forBoard b = .ok p ∧ ¬ StepsFit b (Domino.upTo b.maxPips) p 0 0) := by
  refine ⟨fun n => Domino.setSize_eq, ?_, ?_⟩
  · intro n hdimensions hmax
    refine ⟨lt_of_maxPipsFor hmax, synthesize_overflow_iff hdimensions hmax source, ?_,
      largest_of_enumerate_overflow hdimensions hmax⟩
    intro hn
    exact enumerate_of_setFor_error (setFor_largest hdimensions hmax hn)
  · intro b hb
    have hproper := (Board.of_parse hb).1
    exact ⟨hproper.maxPips_lt, solveBoard_largest, not_stepsFit_of_overflow hproper⟩

/-- Two rows of `2 ^ 32` columns, and a row of two cells. -/
theorem overflow_at_largest_by_size :
    (∀ source, synthesize 2 (2 ^ 32) source = .error (.fault .overflow)) ∧
    enumerate 2 (2 ^ 32) = .error (.fault .overflow) ∧
    ∃ b, Board.parse "[[4294967295,0]]" = .ok b ∧ solveBoard b = .error (.fault .overflow) := by
  have hdimensions : checkDimensions 2 (2 ^ 32) = .ok () := by rfl
  have hmax : maxPipsFor 2 (2 ^ 32) = .ok (2 ^ 32 - 1) := by rfl
  have hread : Board.parse "[[4294967295,0]]" =
      .ok ⟨1, 2, #[4294967295, 0], rfl, by decide⟩ := by
    rfl
  have hsizes (source : WordSource) :=
    (overflow_at_largest 2 (2 ^ 32) source "[[4294967295,0]]").2.1 _ hdimensions hmax
  have hboards := (overflow_at_largest 2 (2 ^ 32) ⟨[], 0⟩ "[[4294967295,0]]").2.2 _ hread
  exact ⟨fun source => (hsizes source).2.1.2 rfl, (hsizes ⟨[], 0⟩).2.2.1 rfl, _, hread,
    hboards.2.1 rfl⟩

/-- The number of dominoes with pips up to the largest of 32 bits fits a word, but is not computed. -/
theorem setSize_ne_at_largest :
    checkDimensions 2 (2 ^ 32) = .ok () ∧ maxPipsFor 2 (2 ^ 32) = .ok (2 ^ 32 - 1) ∧
      (2 ^ 32 - 1 + 1) * (2 ^ 32 - 1 + 2) / 2 < 2 ^ 64 ∧
      Domino.setSize (2 ^ 32 - 1) ≠ .ok ((2 ^ 32 - 1 + 1) * (2 ^ 32 - 1 + 2) / 2) := by
  refine ⟨rfl, rfl, by decide, ?_⟩
  rw [Domino.setSize_largest]
  intro h
  cases h

end DominoTiling
