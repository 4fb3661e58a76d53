import DominoTiling.Proofs.BoardGrammar
import DominoTiling.Proofs.PoolEnds
import DominoTiling.Proofs.Refusals

/-!
# How boards are made

A board that is `Usable` has a cell, is made again from its own rows, and is solved in the same way by
one search and by any number of workers. Rows, board texts, synthesis and enumeration give nothing but
usable boards. Laying dominoes out does not look at the size it is asked for: without rows or without
columns it needs no domino and succeeds, with a board that is not usable (`made_usable`).
-/

namespace DominoTiling
open Search Generator

/-- There is a cell, the board is made from its rows, and all ways to solve it agree. -/
structure Board.Usable (b : Board) : Prop where
  rows_pos : 1 ≤ b.rows
  cols_pos : 1 ≤ b.cols
  ofRows_toRows : Board.ofRows b.toRows = .ok b
  decided : ∀ p ds workers, Placement.forBoard b = .ok p → StepsFit b ds p 0 0 →
    ∃ v, solve b p ds = .ok v ∧ WorkersDecide b ds workers v.solved

variable {rows cols : Nat} {b : Board} {ds : List Domino}

theorem Board.usable_of_cells (hrows : 1 ≤ b.rows) (hcols : 1 ≤ b.cols)
    (hcells : b.rows * b.cols < 2 ^ 61) : b.Usable := by
  refine ⟨hrows, hcols, Board.ofRows_toRows hrows hcols (by omega), ?_⟩
  intro p ds workers hp hsteps
  obtain ⟨v, hv⟩ := exists_solveFrom hcols (Placement.at?_forBoard hp).1 (.inl (by decide)) hsteps
  exact ⟨v, hv, workersDecide_of_solve hrows hcols hp hv workers⟩

/-! ### Rows and texts -/

theorem Board.usable_of_ofRows {rows : List (List Nat)} (h : Board.ofRows rows = .ok b) :
    b.Usable := by
  obtain ⟨hrows, hcols, hcells, -⟩ := Board.of_ofRows h
  exact Board.usable_of_cells hrows hcols hcells

theorem Board.exists_ofRows_of_decode {s : String} (h : Board.decode s = .ok b) :
    ∃ rows, Board.ofRows rows = .ok b := by
  obtain ⟨⟨rows, rest⟩, -, h⟩ := bind_eq_ok_iff.1 h
  obtain ⟨b', hmake, h⟩ := bind_eq_ok_iff.1 h
  obtain ⟨_, -, h⟩ := bind_eq_ok_iff.1 h
  obtain rfl := Except.ok.inj h
  refine ⟨rows, ?_⟩
  cases hrows : Board.ofRows rows with
  | ok b =>
    rw [hrows] at hmake
    exact hmake
  | error e =>
    rw [hrows] at hmake
    cases hmake

/-! ### Dominoes laid out -/

theorem Layout.cell_bytes_of_board (h : Layout.board rows cols ds = .ok b) :
    8 * (rows * cols) < 2 ^ 63 := by
  unfold board at h
  split at h
  · obtain ⟨_, hroom, -⟩ := bind_eq_ok_iff.1 h
    exact lt_of_allocate (liftM_eq_ok_iff.1 hroom)
  · cases h

theorem Layout.usable_iff (h : Layout.board rows cols ds = .ok b) :
    b.Usable ↔ 1 ≤ rows ∧ 1 ≤ cols := by
  have hbytes := cell_bytes_of_board h
  obtain ⟨-, rfl, rfl, -⟩ := of_board h
  constructor
  · intro hb
    exact ⟨hb.rows_pos, hb.cols_pos⟩
  · rintro ⟨hrows, hcols⟩
    exact Board.usable_of_cells hrows hcols (by omega)

theorem Layout.exists_board_of_empty (h : rows = 0 ∨ cols = 0) (ds : List Domino) :
    ∃ b, Layout.board rows cols ds = .ok b := by
  refine exists_board ?_ ?_
  · rcases h with rfl | rfl <;> simp
  · rcases h with rfl | rfl <;> simp

/-! ### Generators -/

theorem Generator.sides_of_setFor (h : setFor rows cols = .ok ds) : 1 ≤ rows ∧ 1 ≤ cols := by
  cases hsize : checkDimensions rows cols with
  | error e =>
    rw [setFor_of_checkDimensions hsize] at h
    cases h
  | ok u =>
    obtain ⟨hrows, hcols, -⟩ := checkDimensions_eq_ok_iff.1 hsize
    exact ⟨hrows, hcols⟩

theorem Generator.usable_of_synthesize {source source' : WordSource}
    (h : synthesize rows cols source = .ok (b, source')) : b.Usable := by
  obtain ⟨ds, hset, h⟩ := bind_eq_ok_iff.1 h
  obtain ⟨⟨items, source''⟩, -, h⟩ := bind_eq_ok_iff.1 h
  obtain ⟨b', hlaid, h⟩ := bind_eq_ok_iff.1 h
  obtain ⟨rfl, -⟩ := Prod.mk.inj (Except.ok.inj h)
  exact (Layout.usable_iff hlaid).2 (sides_of_setFor hset)

theorem Generator.usable_of_enumerate {s : Survey} (h : enumerate rows cols = .ok s)
    (hb : b ∈ s.boards) : b.Usable := by
  obtain ⟨ds, hset, h⟩ := bind_eq_ok_iff.1 h
  dsimp only at h
  split at h
  · cases h
  · obtain ⟨s', hs', h⟩ := bind_eq_ok_iff.1 h
    obtain ⟨_, -, h⟩ := bind_eq_ok_iff.1 h
    obtain rfl := Except.ok.inj h
    rcases mem_boards_of_survey hs' hb with hstart | ⟨items, -, hlaid⟩
    · exact absurd hstart (Array.not_mem_empty b)
    · exact (Layout.usable_iff hlaid).2 (sides_of_setFor hset)

/-- The ways to make a board, but for laying dominoes out. -/
inductive Board.Made (b : Board) : Prop
  | ofRows {rows : List (List Nat)} (h : Board.ofRows rows = .ok b)
  | parsed {s : String} (h : Board.parse s = .ok b)
  | decoded {s : String} (h : Board.decode s = .ok b)
  | synthesized {rows cols : Nat} {source source' : WordSource}
      (h : synthesize rows cols source = .ok (b, source'))
  | enumerated {rows cols : Nat} {s : Survey} (h : enumerate rows cols = .ok s) (hb : b ∈ s.boards)

theorem Board.Made.usable (h : b.Made) : b.Usable := by
  cases h with
  | ofRows h => exact Board.usable_of_ofRows h
  | parsed h =>
    have hproper := (Board.of_parse h).1
    exact Board.usable_of_cells hproper.rows_pos hproper.cols_pos hproper.cells_lt
  | decoded h =>
    obtain ⟨rows, hrows⟩ := Board.exists_ofRows_of_decode h
    exact Board.usable_of_ofRows hrows
  | synthesized h => exact usable_of_synthesize h
  | enumerated h hb => exact usable_of_enumerate h hb

/-- Every way to make a board gives usable ones, but for laying dominoes out. That gives a board of the
size that is asked for, usable if and only if this has a cell; without one it always succeeds. -/
theorem made_usable (rows cols : Nat) (ds : List Domino) (b : Board) :
    (b.Made → b.Usable) ∧
    (Layout.board rows cols ds = .ok b →
      b.rows = rows ∧ b.cols = cols ∧ b.cells.size = rows * cols ∧
        (b.Usable ↔ 1 ≤ rows ∧ 1 ≤ cols)) ∧
    (rows = 0 ∨ cols = 0 → ∃ b, Layout.board rows cols ds = .ok b) := by
  refine ⟨Board.Made.usable, ?_, fun h => Layout.exists_board_of_empty h ds⟩
  intro h
  have husable := Layout.usable_iff h
  obtain ⟨-, rfl, rfl, -⟩ := Layout.of_board h
  exact ⟨rfl, rfl, b.size_cells, husable⟩

/-- A board read from a text and solved, and one laid out. -/
theorem made_usable_one_by_two :
    (∃ b v, Board.parse "[[0, 0]]" = .ok b ∧ Board.ofRows b.toRows = .ok b ∧
      (∃ p, Placement.forBoard b = .ok p ∧ solve b p [⟨0, 0⟩] = .ok v) ∧
      WorkersDecide b [⟨0, 0⟩] 3 v.solved) ∧
    ∃ b, Layout.board 1 2 [⟨0, 0⟩] = .ok b ∧ b.Usable := by
  have hread : Board.parse "[[0, 0]]" = .ok ⟨1, 2, #[0, 0], rfl, by decide⟩ := by
    rfl
  have hlaid : Layout.board 1 2 [⟨0, 0⟩] = .ok ⟨1, 2, #[0, 0], rfl, by decide⟩ := by
    rfl
  have hempty : Placement.forBoard ⟨1, 2, #[0, 0], rfl, by decide⟩ =
      .ok ⟨1, 2, #[none, none], rfl, by decide⟩ := by
    rfl
  have hsteps : StepsFit ⟨1, 2, #[0, 0], rfl, by decide⟩ [⟨0, 0⟩] ⟨1, 2, #[none, none], rfl, by decide⟩
      0 0 := by
    have hrun : run ⟨1, 2, #[0, 0], rfl, by decide⟩ (candidates [⟨0, 0⟩]) never 0 0
        (.start ⟨1, 2, #[none, none], rfl, by decide⟩ 1) =
        .ok (true, ⟨⟨1, 2, #[some 0, some 0], rfl, by decide⟩, ⟨#[1]⟩, 4, 0⟩) := by
      cbv
    intro solved s h
    obtain ⟨-, rfl⟩ := Prod.mk.inj (Except.ok.inj (hrun.symm.trans h))
    decide
  obtain ⟨hmade, hboard, -⟩ := made_usable 1 2 [⟨0, 0⟩] ⟨1, 2, #[0, 0], rfl, by decide⟩
  have husable := hmade (.parsed hread)
  obtain ⟨v, hv, hworkers⟩ := husable.decided _ _ 3 hempty hsteps
  exact ⟨⟨_, v, hread, husable.ofRows_toRows, ⟨_, hempty, hv⟩, hworkers⟩, _, hlaid,
    (hboard hlaid).2.2.2.2 ⟨by decide, by decide⟩⟩

/-- A board without rows. Its rows make no board, and workers answer that it has no cover where one
search finds one. -/
theorem laid_without_rows :
    ∃ b p v, Layout.board 0 2 [] = .ok b ∧ b.rows = 0 ∧
      Board.ofRows b.toRows = .error (.error (.nonPositiveDimensions 0 0)) ∧
      Placement.forBoard b = .ok p ∧ solve b p [] = .ok v ∧ v.solved = true ∧
      ∀ workers answer, ParallelAnswer b [] workers answer → answer = none := by
  have hsolve : solve ⟨0, 2, #[], rfl, by decide⟩ ⟨0, 2, #[], rfl, by decide⟩ [] =
      .ok ⟨true, ⟨0, 2, #[], rfl, by decide⟩, 0, 1, 0⟩ := by
    cbv
  refine ⟨⟨0, 2, #[], rfl, by decide⟩, ⟨0, 2, #[], rfl, by decide⟩, _, rfl, rfl, rfl, rfl, hsolve, rfl, ?_⟩
  rintro workers answer ⟨cs, schedule, q, hcs, hrun, hanswer⟩
  obtain rfl : [] = cs := Except.ok.inj hcs
  cases schedule with
  | nil =>
    obtain rfl : Pool.start [] = q := Option.some.inj hrun
    cases hanswer with
    | cover he => cases he
    | none => rfl
  | cons turn schedule => cases hrun

end DominoTiling
