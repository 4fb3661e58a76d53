import DominoTiling.Proofs.Layout

/-!
# Cells filled by position

The cells of a board can also be filled in place: all are empty at first, and for every other column `j`
of every row `i` the next domino of the supply goes to the positions `i * cols + j` and
`i * cols + j + 1`, the second of them left out past the end of the row. A cell left empty at the end is
one more reason to answer that the dominoes ran out.

What is filled at any time is the front of the cells: `pad` is such a front with empty cells after it.
One domino appends to the front (`layNext_padded_pair`, `layNext_padded_last`), so rows filled in place
are rows appended (`layRow_eq`, `layRows_eq`). No cell is left empty (`layAll_filled`), both ways make
the same board (`boardInPlace_eq`), and it is known for every size and supply (`board_of_supply`).
-/

namespace DominoTiling.Layout
variable {rows cols i j n placed : Nat} {b : Board} {d : Domino} {ds : List Domino}
  {cells : Array Nat} {l l' : Laid}

/-! ### Filling in place -/

/-- What is left of a supply, how many of it have been laid, and the cells, empty or filled. -/
structure Filling where
  supply : List Domino
  placed : Nat
  cells : Array (Option Nat)

/-- Fills the cell at a position. One that a word cannot hold is past the last cell as well. -/
def fillCell (k pips : Nat) (cells : Array (Option Nat)) : Except Failure (Array (Option Nat)) :=
  if h : k < cells.size then .ok (cells.set k (some pips) h) else .error (.fault .outOfRange)

/-- Lays the next domino on the cell `(i, j)` and, where the row goes on, on the one to its right. -/
def layNext (rows cols i j : Nat) : Filling → Except Failure Filling
  | ⟨[], placed, _⟩ => .error (.error (.exhausted placed rows cols))
  | ⟨d :: supply, placed, cells⟩ => do
    let cells ← fillCell (i * cols + j) d.side1 cells
    let cells ← if j + 1 < cols then fillCell (i * cols + j + 1) d.side2 cells else pure cells
    return ⟨supply, placed + 1, cells⟩

/-- Lays dominoes on the row `i`, at every other column from `j` on. -/
def layRow (rows cols i j count : Nat) (f : Filling) : Except Failure Filling :=
  (List.range' j count 2).foldlM (fun f j => layNext rows cols i j f) f

def layAll (rows cols : Nat) (dominoes : List Domino) : Except Failure Filling :=
  (List.range rows).foldlM (fun f i => layRow rows cols i 0 ((cols + 1) / 2) f)
    ⟨dominoes, 0, Array.replicate (rows * cols) none⟩

/-- The board of this size with its cells filled in place. -/
def boardInPlace (rows cols : Nat) (dominoes : List Domino) : Except Failure Board := do
  if hlt : rows * cols < 2 ^ 64 then
    allocate 8 (rows * cols)
    let f ← layAll rows cols dominoes
    match f.cells.mapM id with
    | none => throw (.error (.exhausted f.placed rows cols))
    | some cells =>
      if h : cells.size = rows * cols then
        return ⟨rows, cols, cells, h, by rw [h]; exact hlt⟩
      else
        throw (.fault .assertion)
  else
    throw (.fault .overflow)

/-! ### One domino -/

/-- Filled cells with empty ones after them, `n` in all. -/
def pad (n : Nat) (cells : Array Nat) : Array (Option Nat) :=
  cells.map some ++ Array.replicate (n - cells.size) none

theorem size_pad (h : cells.size ≤ n) : (pad n cells).size = n := by
  simp only [pad, Array.size_append, Array.size_map, Array.size_replicate]
  omega

/-- The first empty cell is filled. -/
theorem fillCell_pad {k : Nat} (hk : cells.size = k) (h : k < n) (pips : Nat) :
    fillCell k pips (pad n cells) = .ok (pad n (cells.push pips)) := by
  subst hk
  have hsize : cells.size < (pad n cells).size := by
    rw [size_pad (Nat.le_of_lt h)]
    exact h
  have hcells : (pad n cells).set cells.size (some pips) hsize = pad n (cells.push pips) := by
    refine Array.ext_getElem? fun k => ?_
    simp only [pad, Array.getElem?_set, Array.getElem?_append, Array.size_map, Array.getElem?_map,
      Array.size_push, Array.getElem?_push, Array.getElem?_replicate]
    grind
  rw [fillCell, dif_pos hsize, hcells]

def Laid.padded (n : Nat) (l : Laid) : Filling := ⟨l.supply, l.placed, pad n l.cells⟩

theorem layNext_padded_pair (hsize : cells.size = i * cols + j) (hj : j + 1 < cols)
    (hn : i * cols + cols ≤ n) :
    layNext rows cols i j (Laid.padded n ⟨d :: ds, placed, cells⟩) =
      .ok (Laid.padded n ⟨ds, placed + 1, (cells.push d.side1).push d.side2⟩) := by
  have hfirst : fillCell (i * cols + j) d.side1 (pad n cells) = .ok (pad n (cells.push d.side1)) :=
    fillCell_pad hsize (by omega) d.side1
  have hsecond : fillCell (i * cols + j + 1) d.side2 (pad n (cells.push d.side1)) =
      .ok (pad n ((cells.push d.side1).push d.side2)) :=
    fillCell_pad (by rw [Array.size_push, hsize]) (by omega) d.side2
  simp only [layNext, Laid.padded, hfirst, if_pos hj, bind, Except.bind, hsecond]
  rfl

theorem layNext_padded_last (hsize : cells.size = i * cols + j) (hj : j + 1 = cols)
    (hn : i * cols + cols ≤ n) :
    layNext rows cols i j (Laid.padded n ⟨d :: ds, placed, cells⟩) =
      .ok (Laid.padded n ⟨ds, placed + 1, cells.push d.side1⟩) := by
  have hfirst : fillCell (i * cols + j) d.side1 (pad n cells) = .ok (pad n (cells.push d.side1)) :=
    fillCell_pad hsize (by omega) d.side1
  simp only [layNext, Laid.padded, hfirst, if_neg (show ¬ j + 1 < cols by omega), bind, Except.bind]
  rfl

/-! ### Rows -/

/-- The answer of filling in place where rows are appended with this one. -/
def inPlace (rows cols n : Nat) : Except Nat Laid → Except Failure Filling
  | .ok l => .ok (l.padded n)
  | .error placed => .error (.error (.exhausted placed rows cols))

theorem layRow_eq {rest : Nat} (hsize : l.cells.size = i * cols + j) (hrest : j + rest = cols)
    (hn : i * cols + cols ≤ n) :
    layRow rows cols i j ((rest + 1) / 2) (l.padded n) = inPlace rows cols n (fillRow rest l) := by
  -- two columns at a time, with one left over in an odd width
  induction rest using Nat.twoStepInduction generalizing l j with
  | zero => rfl
  | one =>
    obtain ⟨supply, placed, cells⟩ := l
    cases supply with
    | nil => rfl
    | cons d ds =>
      show (layNext rows cols i j _ >>= fun f => .ok f) = _
      rw [layNext_padded_last hsize hrest hn]
      rfl
  | more rest ih _ =>
    have hcount : (rest + 2 + 1) / 2 = (rest + 1) / 2 + 1 := by omega
    obtain ⟨supply, placed, cells⟩ := l
    rw [hcount, layRow, List.range'_succ, List.foldlM_cons]
    cases supply with
    | nil => rfl
    | cons d ds =>
      rw [layNext_padded_pair hsize (by omega) hn, fillRow]
      refine ih ?_ (by omega)
      have hcells : cells.size = i * cols + j := hsize
      simp only [Array.size_push]
      omega

theorem size_of_fillRow {rest : Nat} (h : fillRow rest l = .ok l') :
    l'.cells.size = l.cells.size + rest := by
  obtain ⟨supply, placed, cells⟩ := l
  rw [fillRow_eq] at h
  split at h
  · rename_i hle
    obtain rfl := Except.ok.inj h
    simp only [Array.size_append, List.size_toArray, length_rowCells hle]
  · cases h

theorem layRows_eq {count : Nat} (hsize : l.cells.size = i * cols) (hn : (i + count) * cols ≤ n) :
    (List.range' i count).foldlM (fun f i => layRow rows cols i 0 ((cols + 1) / 2) f) (l.padded n) =
      inPlace rows cols n (fillRows cols count l) := by
  induction count generalizing l i with
  | zero => rfl
  | succ count ih =>
    have hle : (i + 1) * cols ≤ (i + (count + 1)) * cols := Nat.mul_le_mul_right _ (by omega)
    rw [Nat.succ_mul] at hle
    rw [List.range'_succ, List.foldlM_cons, layRow_eq hsize (Nat.zero_add cols) (by omega), fillRows]
    cases hrow : fillRow cols l with
    | error placed => rfl
    | ok l' =>
      -- the front ends where the next row begins
      refine ih ?_ ?_
      · rw [size_of_fillRow hrow, hsize, Nat.succ_mul]
      · rwa [show i + 1 + count = i + (count + 1) by omega]

theorem layAll_eq (rows cols : Nat) (ds : List Domino) :
    layAll rows cols ds = inPlace rows cols (rows * cols) (fillRows cols rows ⟨ds, 0, #[]⟩) := by
  have hstart : (Laid.padded (rows * cols) ⟨ds, 0, #[]⟩) =
      ⟨ds, 0, Array.replicate (rows * cols) none⟩ := by
    simp [Laid.padded, pad]
  rw [layAll, ← hstart, List.range_eq_range']
  exact layRows_eq (by simp) (by rw [Nat.zero_add])

/-! ### The whole board -/

theorem pad_full (h : cells.size = n) : pad n cells = cells.map some := by
  rw [pad, h, Nat.sub_self, Array.replicate_zero, Array.append_empty]

theorem layAll_of_le (h : rows * ((cols + 1) / 2) ≤ ds.length) :
    layAll rows cols ds = .ok ⟨ds.drop (rows * ((cols + 1) / 2)), rows * ((cols + 1) / 2),
      (boardCells cols rows ds).toArray.map some⟩ := by
  have hfull : (boardCells cols rows ds).toArray.size = rows * cols := by
    rw [List.size_toArray, length_boardCells h]
  rw [layAll_eq, fillRows_cells h]
  simp only [inPlace, Laid.padded, pad_full hfull]

theorem layAll_of_lt (h : ds.length < rows * ((cols + 1) / 2)) :
    layAll rows cols ds = .error (.error (.exhausted ds.length rows cols)) := by
  rw [layAll_eq, fillRows_eq, if_neg (Nat.not_le.2 h), Nat.zero_add]
  rfl

/-- No cell is left empty. -/
theorem layAll_filled {f : Filling} (h : layAll rows cols ds = .ok f) {k : Nat} (hk : k < rows * cols) :
    ∃ pips, f.cells[k]? = some (some pips) := by
  rcases Nat.lt_or_ge ds.length (rows * ((cols + 1) / 2)) with hlt | hle
  · rw [layAll_of_lt hlt] at h
    cases h
  · rw [layAll_of_le hle] at h
    obtain rfl := Except.ok.inj h
    rw [← length_boardCells hle] at hk
    refine ⟨(boardCells cols rows ds)[k], ?_⟩
    rw [Array.getElem?_map, List.getElem?_toArray, List.getElem?_eq_getElem hk, Option.map_some]

theorem mapM_map_some (cells : Array Nat) : (cells.map some).mapM id = some cells := by
  have hmap : cells.mapM some = some (cells.map id) := Array.mapM_pure
  rw [Array.mapM_map, Function.id_comp, hmap, Array.map_id]

/-- Filling in place makes the board that appending makes, and fails where that fails. -/
theorem boardInPlace_eq (rows cols : Nat) (ds : List Domino) :
    boardInPlace rows cols ds = board rows cols ds := by
  unfold boardInPlace board
  split
  · rename_i hlt
    rcases Nat.lt_or_ge ds.length (rows * ((cols + 1) / 2)) with hfew | hle
    · rw [layAll_of_lt hfew, fillRows_eq, if_neg (Nat.not_le.2 hfew), Nat.zero_add]
      rfl
    · have hsize : (boardCells cols rows ds).toArray.size = rows * cols := by
        rw [List.size_toArray, length_boardCells hle]
      rw [layAll_of_le hle, fillRows_cells hle]
      simp only [bind, Except.bind, mapM_map_some, dif_pos hsize]
  · rfl

/-! ### What is on the board -/

theorem rowCells_at {c : Nat} (hc : c < (cols + 1) / 2) (hd : ds[c]? = some d) :
    (rowCells cols ds)[2 * c]? = some d.side1 ∧
      (2 * c + 1 < cols → (rowCells cols ds)[2 * c + 1]? = some d.side2) := by
  obtain ⟨hleft, hright⟩ := sidesOf_at ((List.getElem?_take_of_lt hc).trans hd)
  exact ⟨(List.getElem?_take_of_lt (by omega)).trans hleft,
    fun hlt => (List.getElem?_take_of_lt hlt).trans hright⟩

theorem boardCells_at {j : Nat} (h : rows * ((cols + 1) / 2) ≤ ds.length) (hi : i < rows)
    (hj : j < cols) :
    (boardCells cols rows ds)[i * cols + j]? =
      (rowCells cols (ds.drop (i * ((cols + 1) / 2))))[j]? := by
  induction rows generalizing ds i with
  | zero => cases hi
  | succ rows ih =>
    rw [Nat.succ_mul] at h
    have hrow : (rowCells cols ds).length = cols := length_rowCells (by omega)
    rw [boardCells]
    cases i with
    | zero =>
      rw [Nat.zero_mul, Nat.zero_mul, Nat.zero_add, List.drop_zero,
        List.getElem?_append_left (hrow.symm ▸ hj)]
    | succ i =>
      have hnext : (i + 1) * cols + j = cols + (i * cols + j) := by
        rw [Nat.succ_mul]
        omega
      rw [hnext, List.getElem?_append_right (by omega), hrow, Nat.add_sub_cancel_left,
        ih (by rw [List.length_drop]; omega) (by omega), List.drop_drop, Nat.succ_mul, Nat.add_comm]

theorem board_at {c : Nat} (h : board rows cols ds = .ok b) (hi : i < rows) (hc : c < (cols + 1) / 2) :
    ∃ d, ds[i * ((cols + 1) / 2) + c]? = some d ∧ b.at? (i, 2 * c) = some d.side1 ∧
      (2 * c + 1 < cols → b.at? (i, 2 * c + 1) = some d.side2) := by
  obtain ⟨hle, rfl, rfl, hcells⟩ := of_board h
  have hat : ∀ j < b.cols, b.at? (i, j) =
      (rowCells b.cols (ds.drop (i * ((b.cols + 1) / 2))))[j]? := by
    intro j hj
    rw [Grid.at?_of_lt hi hj, ← Array.getElem?_toList, hcells, boardCells_at hle hi hj]
  have hlt : i * ((b.cols + 1) / 2) + c < ds.length := by
    have hnext : (i + 1) * ((b.cols + 1) / 2) ≤ b.rows * ((b.cols + 1) / 2) :=
      Nat.mul_le_mul_right _ hi
    rw [Nat.succ_mul] at hnext
    omega
  have hd := List.getElem?_eq_getElem hlt
  obtain ⟨hleft, hright⟩ := rowCells_at hc (List.getElem?_drop.trans hd)
  exact ⟨_, hd, (hat _ (by omega)).trans hleft, fun hj => (hat _ hj).trans (hright hj)⟩

theorem board_of_few (hbytes : 8 * (rows * cols) < 2 ^ 63) (h : ds.length < rows * ((cols + 1) / 2)) :
    board rows cols ds = .error (.error (.exhausted ds.length rows cols)) := by
  rw [board, dif_pos (show rows * cols < 2 ^ 64 by omega), allocate_of_lt hbytes, fillRows_eq,
    if_neg (Nat.not_le.2 h), Nat.zero_add]
  rfl

/-- A board that can be stored is laid out exactly from the supplies with a domino for every two columns
of a row, an odd last column counted as two. These show in order, whatever follows them; with fewer, all
of them are laid before the answer is that they ran out. No cell is left empty on the way. -/
theorem board_of_supply (hcells : rows * cols < 2 ^ 60) :
    ((∃ b, board rows cols ds = .ok b) ↔ rows * ((cols + 1) / 2) ≤ ds.length) ∧
    (∀ b, board rows cols ds = .ok b → b.rows = rows ∧ b.cols = cols ∧
      (∀ i < rows, ∀ c < (cols + 1) / 2, ∃ d, ds[i * ((cols + 1) / 2) + c]? = some d ∧
        b.at? (i, 2 * c) = some d.side1 ∧ (2 * c + 1 < cols → b.at? (i, 2 * c + 1) = some d.side2)) ∧
      ∀ es, board rows cols (ds.take (rows * ((cols + 1) / 2)) ++ es) = .ok b) ∧
    (ds.length < rows * ((cols + 1) / 2) →
      board rows cols ds = .error (.error (.exhausted ds.length rows cols))) ∧
    boardInPlace rows cols ds = board rows cols ds ∧
    ∀ f, layAll rows cols ds = .ok f → ∀ k < rows * cols, ∃ pips, f.cells[k]? = some (some pips) := by
  have hbytes : 8 * (rows * cols) < 2 ^ 63 := by omega
  refine ⟨⟨?_, exists_board hbytes⟩, ?_, board_of_few hbytes, boardInPlace_eq rows cols ds,
    fun f hf k => layAll_filled hf⟩
  · rintro ⟨b, hb⟩
    exact (of_board hb).1
  · intro b hb
    obtain ⟨hle, hrows, hcols, -⟩ := of_board hb
    refine ⟨hrows, hcols, fun i hi c => board_at hb hi, fun es => ?_⟩
    rw [board_append (by rw [List.length_take, Nat.min_eq_left hle]), board_take hle, hb]

/-- Two rows of three columns take four dominoes, the second and the last cut off. -/
theorem board_of_supply_three_columns :
    (∃ b, board 2 3 [⟨0, 1⟩, ⟨2, 3⟩, ⟨4, 5⟩, ⟨6, 7⟩, ⟨8, 9⟩] = .ok b ∧
      b.at? (1, 2) = some 6 ∧ board 2 3 [⟨0, 1⟩, ⟨2, 3⟩, ⟨4, 5⟩, ⟨6, 7⟩] = .ok b) ∧
    board 2 3 [⟨0, 1⟩, ⟨2, 3⟩, ⟨4, 5⟩] = .error (.error (.exhausted 3 2 3)) := by
  have hlaid : ∃ b, board 2 3 [⟨0, 1⟩, ⟨2, 3⟩, ⟨4, 5⟩, ⟨6, 7⟩, ⟨8, 9⟩] = .ok b :=
    (board_of_supply (by decide)).1.2 (by decide)
  obtain ⟨b, hb⟩ := hlaid
  obtain ⟨-, -, hcells, hfollow⟩ := (board_of_supply (by decide)).2.1 b hb
  obtain ⟨d, hd, hside, -⟩ := hcells 1 (by decide) 1 (by decide)
  obtain rfl := Option.some.inj hd
  exact ⟨⟨b, hb, hside, hfollow []⟩, (board_of_supply (by decide)).2.2.1 (by decide)⟩

end DominoTiling.Layout
