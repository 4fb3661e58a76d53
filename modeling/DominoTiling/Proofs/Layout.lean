import DominoTiling.Layout
import DominoTiling.Proofs.Pairing

/-!
# The cells of a board laid out

A row shows the first sides of the next `(cols + 1) / 2` dominoes of the supply, as many as there are
columns (`fillRow_eq`), and the supply goes on from there (`fillRows_eq`). With an even number of
columns nothing is cut off: the cells of the whole board, read row by row, are the sides of its
dominoes, and the dominoes themselves, each on the two cells it was laid on, tile the board
(`boardTiling`).
-/

namespace DominoTiling.Layout
variable {rows cols half : Nat} {b : Board} {ds : List Domino}

/-- The sides of dominoes in a row. -/
def sidesOf (ds : List Domino) : List Nat := ds.flatMap fun d => [d.side1, d.side2]

@[simp] theorem sidesOf_nil : sidesOf [] = [] := rfl

@[simp] theorem sidesOf_cons {d : Domino} : sidesOf (d :: ds) = d.side1 :: d.side2 :: sidesOf ds :=
  rfl

theorem sidesOf_append {es : List Domino} : sidesOf (ds ++ es) = sidesOf ds ++ sidesOf es :=
  List.flatMap_append

@[simp] theorem length_sidesOf : (sidesOf ds).length = 2 * ds.length := by
  induction ds with
  | nil => rfl
  | cons d ds ih =>
    simp only [sidesOf_cons, List.length_cons, ih]
    omega

theorem sidesOf_at {k : Nat} {d : Domino} (h : ds[k]? = some d) :
    (sidesOf ds)[2 * k]? = some d.side1 ∧ (sidesOf ds)[2 * k + 1]? = some d.side2 := by
  induction ds generalizing k with
  | nil => simp at h
  | cons e ds ih =>
    cases k with
    | zero =>
      rw [List.getElem?_cons_zero, Option.some.injEq] at h
      subst h
      exact ⟨rfl, rfl⟩
    | succ k =>
      rw [List.getElem?_cons_succ] at h
      exact ih h

/-- The cells of a row of dominoes. -/
def rowCells (cols : Nat) (ds : List Domino) : List Nat :=
  (sidesOf (ds.take ((cols + 1) / 2))).take cols

/-- The cells of so many rows of dominoes. -/
def boardCells (cols : Nat) : (rows : Nat) → List Domino → List Nat
  | 0, _ => []
  | rows + 1, ds => rowCells cols ds ++ boardCells cols rows (ds.drop ((cols + 1) / 2))

theorem length_rowCells (h : (cols + 1) / 2 ≤ ds.length) : (rowCells cols ds).length = cols := by
  rw [rowCells, List.length_take, length_sidesOf, List.length_take_of_le h]
  omega

theorem length_boardCells (h : rows * ((cols + 1) / 2) ≤ ds.length) :
    (boardCells cols rows ds).length = rows * cols := by
  induction rows generalizing ds with
  | zero => simp [boardCells]
  | succ rows ih =>
    rw [Nat.succ_mul] at h
    rw [boardCells, List.length_append, length_rowCells (by omega),
      ih (by rw [List.length_drop]; omega), Nat.succ_mul, Nat.add_comm]

theorem boardCells_even : boardCells (2 * half) rows ds = sidesOf (ds.take (rows * half)) := by
  have hhalf : (2 * half + 1) / 2 = half := by omega
  induction rows generalizing ds with
  | zero => simp [boardCells]
  | succ rows ih =>
    have hrow : rowCells (2 * half) ds = sidesOf (ds.take half) := by
      rw [rowCells, hhalf]
      exact List.take_of_length_le (by rw [length_sidesOf, List.length_take]; omega)
    rw [boardCells, hrow, ih, hhalf, ← sidesOf_append, ← List.take_add, Nat.succ_mul, Nat.add_comm]

/-! ### Filling rows -/

theorem fillRow_eq (cols placed : Nat) (ds : List Domino) (cells : Array Nat) :
    fillRow cols ⟨ds, placed, cells⟩ =
      if (cols + 1) / 2 ≤ ds.length then
        .ok ⟨ds.drop ((cols + 1) / 2), placed + (cols + 1) / 2, cells ++ (rowCells cols ds).toArray⟩
      else .error (placed + ds.length) := by
  induction cols using Nat.twoStepInduction generalizing ds placed cells with
  | zero => simp [fillRow, rowCells]
  | one => cases ds <;> simp [fillRow, rowCells]
  | more cols ih _ =>
    have hhalf : (cols + 2 + 1) / 2 = (cols + 1) / 2 + 1 := by omega
    cases ds with
    | nil => simp [fillRow]
    | cons d ds =>
      rw [fillRow, ih, hhalf]
      simp only [List.length_cons, Nat.add_le_add_iff_right, List.drop_succ_cons, rowCells, hhalf,
        List.take_succ_cons, sidesOf_cons]
      split
      · simp [Nat.add_assoc, Nat.add_comm 1]
      · rw [Nat.add_assoc, Nat.add_comm 1]

theorem fillRows_eq (cols rows placed : Nat) (ds : List Domino) (cells : Array Nat) :
    fillRows cols rows ⟨ds, placed, cells⟩ =
      if rows * ((cols + 1) / 2) ≤ ds.length then
        .ok ⟨ds.drop (rows * ((cols + 1) / 2)), placed + rows * ((cols + 1) / 2),
          cells ++ (boardCells cols rows ds).toArray⟩
      else .error (placed + ds.length) := by
  induction rows generalizing ds placed cells with
  | zero => simp [fillRows, boardCells]
  | succ rows ih =>
    rw [fillRows, fillRow_eq, Nat.succ_mul]
    by_cases hrow : (cols + 1) / 2 ≤ ds.length
    · rw [if_pos hrow]
      show fillRows cols rows _ = _
      rw [ih, List.length_drop, List.drop_drop]
      by_cases hrows : rows * ((cols + 1) / 2) + (cols + 1) / 2 ≤ ds.length
      · rw [if_pos (by omega), if_pos hrows]
        simp [boardCells, Nat.add_assoc, Nat.add_comm]
      · rw [if_neg (by omega), if_neg hrows]
        congr 1
        omega
    · rw [if_neg hrow, if_neg (by omega)]
      rfl

theorem fillRows_cells (h : rows * ((cols + 1) / 2) ≤ ds.length) :
    fillRows cols rows ⟨ds, 0, #[]⟩ =
      .ok ⟨ds.drop (rows * ((cols + 1) / 2)), rows * ((cols + 1) / 2),
        (boardCells cols rows ds).toArray⟩ := by
  rw [fillRows_eq, if_pos h, Nat.zero_add, Array.empty_append]

/-- A board is laid out wherever there are enough dominoes and it can be stored. -/
theorem exists_board (hbytes : 8 * (rows * cols) < 2 ^ 63)
    (h : rows * ((cols + 1) / 2) ≤ ds.length) : ∃ b, board rows cols ds = .ok b := by
  have hsize := length_boardCells h
  unfold board
  rw [dif_pos (show rows * cols < 2 ^ 64 by omega), allocate_of_lt hbytes, fillRows_cells h]
  dsimp only
  rw [dif_pos (by rw [List.size_toArray]; exact hsize)]
  exact ⟨_, rfl⟩

theorem board_of_le (hword : rows * cols < 2 ^ 64) (hbytes : 2 ^ 63 ≤ 8 * (rows * cols)) :
    board rows cols ds = .error (.fault .tooBig) := by
  rw [board, dif_pos hword, allocate_of_le hbytes]
  rfl

/-- The cells of a board that was laid out. -/
theorem of_board (h : board rows cols ds = .ok b) :
    rows * ((cols + 1) / 2) ≤ ds.length ∧ b.rows = rows ∧ b.cols = cols ∧
      b.cells.toList = boardCells cols rows ds := by
  unfold board at h
  split at h
  · obtain ⟨_, -, h⟩ := bind_eq_ok_iff.1 h
    rw [fillRows_eq] at h
    by_cases hle : rows * ((cols + 1) / 2) ≤ ds.length
    · rw [if_pos hle, Array.empty_append] at h
      dsimp only at h
      split at h
      · obtain rfl := Except.ok.inj h
        exact ⟨hle, rfl, rfl, rfl⟩
      · cases h
    · rw [if_neg hle] at h
      cases h
  · cases h

theorem boardCells_append {es : List Domino} (h : rows * ((cols + 1) / 2) ≤ ds.length) :
    boardCells cols rows (ds ++ es) = boardCells cols rows ds := by
  induction rows generalizing ds with
  | zero => rfl
  | succ rows ih =>
    rw [Nat.succ_mul] at h
    rw [boardCells, boardCells, rowCells, rowCells, List.take_append_of_le_length (by omega),
      List.drop_append_of_le_length (by omega), ih (by rw [List.length_drop]; omega)]

/-- Dominoes that follow those of the last row are not looked at. -/
theorem board_append (h : rows * ((cols + 1) / 2) ≤ ds.length) (es : List Domino) :
    board rows cols (ds ++ es) = board rows cols ds := by
  have happend : rows * ((cols + 1) / 2) ≤ (ds ++ es).length :=
    Nat.le_trans h (List.length_append ▸ Nat.le_add_right ..)
  simp only [board, fillRows_cells h, fillRows_cells happend, boardCells_append h]

theorem board_take (h : rows * ((cols + 1) / 2) ≤ ds.length) :
    board rows cols (ds.take (rows * ((cols + 1) / 2))) = board rows cols ds := by
  have hlength : rows * ((cols + 1) / 2) ≤ (ds.take (rows * ((cols + 1) / 2))).length := by
    rw [List.length_take, Nat.min_eq_left h]
  have happend := board_append hlength (ds.drop (rows * ((cols + 1) / 2)))
  rw [List.take_append_drop] at happend
  exact happend.symm

/-! ### The tiling that was laid -/

/-- The cell at a position in row-major order. -/
def cellAt (cols k : Nat) : Nat × Nat := (k / cols, k % cols)

/-- The domino at position `k`, on the cells where it was laid. -/
def tileAt (cols k : Nat) : Tile := ⟨k, cellAt cols (2 * k), cellAt cols (2 * k + 1)⟩

theorem cellAt_inj {k l : Nat} (h : cellAt cols k = cellAt cols l) : k = l := by
  obtain ⟨hdiv, hmod⟩ := Prod.ext_iff.1 h
  dsimp only [cellAt] at hdiv hmod
  rw [← Nat.div_add_mod k cols, hdiv, hmod, Nat.div_add_mod]

theorem adjacent_tileAt (k : Nat) :
    Placement.adjacent (cellAt (2 * half) (2 * k)) (cellAt (2 * half) (2 * k + 1)) = true := by
  have hrow : (2 * k + 1) / (2 * half) = 2 * k / (2 * half) := by
    rw [← Nat.div_div_eq_div_mul, ← Nat.div_div_eq_div_mul]
    congr 1
    omega
  have hcol : (2 * k + 1) % (2 * half) = 2 * k % (2 * half) + 1 := by
    have hhalf : (2 * k + 1) / 2 = 2 * k / 2 := by omega
    rw [Nat.mod_mul, Nat.mod_mul, hhalf]
    omega
  rw [Placement.adjacent_iff]
  exact .inl ⟨hrow.symm, .inl hcol.symm⟩

theorem flatMap_cells (cols n : Nat) :
    ((List.range n).map (tileAt cols)).flatMap Tile.cells =
      (List.range (2 * n)).map (cellAt cols) := by
  induction n with
  | zero => rfl
  | succ n ih =>
    rw [List.range_succ, List.map_append, List.flatMap_append, ih, Nat.mul_succ, List.range_succ,
      List.range_succ]
    simp [tileAt, Tile.cells]

/-- The dominoes tile the board as they were laid. -/
theorem boardTiling (h : board rows (2 * half) ds = .ok b) :
    BoardTiling b ds ((List.range (rows * half)).map (tileAt (2 * half))) := by
  obtain ⟨hle, hrows, hcols, hcells⟩ := of_board h
  rw [boardCells_even] at hcells
  have hhalf : (2 * half + 1) / 2 = half := by omega
  rw [hhalf] at hle
  have hsize : b.cells.size = 2 * (rows * half) := by
    rw [b.size_cells, hrows, hcols, Nat.mul_left_comm]
  have hat : ∀ k, k < 2 * (rows * half) →
      b.at? (cellAt (2 * half) k) = (sidesOf (ds.take (rows * half)))[k]? := by
    intro k hk
    rw [← hcells, cellAt, ← hcols, Grid.at?_div_mod (hsize ▸ hk), Array.getElem?_toList]
  refine ⟨fun t ht => ?_, ?_, ?_, fun c => ?_⟩
  · obtain ⟨k, hk, rfl⟩ := List.mem_map.1 ht
    rw [List.mem_range] at hk
    obtain ⟨d, hd⟩ : ∃ d, ds[k]? = some d :=
      ⟨_, List.getElem?_eq_getElem (Nat.lt_of_lt_of_le hk hle)⟩
    obtain ⟨h1, h2⟩ := sidesOf_at ((List.getElem?_take_of_lt hk).trans hd)
    exact ⟨adjacent_tileAt k, d, _, _, hd, (hat _ (by omega)).trans h1,
      (hat _ (by omega)).trans h2, Domino.covers_iff.2 (.inl ⟨rfl, rfl⟩)⟩
  · rw [flatMap_cells]
    exact List.nodup_range.map fun _ _ => cellAt_inj
  · rw [List.map_map]
    exact (List.map_id _).symm ▸ List.nodup_range
  · rw [flatMap_cells, List.mem_map]
    constructor
    · rintro ⟨k, hk, rfl⟩
      rw [List.mem_range, ← hsize] at hk
      have hon := Grid.at?_div_mod hk
      rw [hcols, Array.getElem?_eq_getElem hk] at hon
      exact Grid.lt_of_at? hon
    · rintro ⟨hx, hy⟩
      have hpos := Grid.pos_lt hx hy
      rw [hcols] at hpos hy
      refine ⟨c.1 * (2 * half) + c.2, List.mem_range.2 (hsize ▸ hpos), ?_⟩
      have hwidth := Nat.zero_lt_of_lt hy
      rw [cellAt, Nat.mul_comm, Nat.mul_add_div hwidth, Nat.div_eq_of_lt hy, Nat.mul_add_mod,
        Nat.mod_eq_of_lt hy, Nat.add_zero]

end DominoTiling.Layout
