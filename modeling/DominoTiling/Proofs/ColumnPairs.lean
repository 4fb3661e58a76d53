import DominoTiling.Proofs.Layout
import Mathlib.Order.Basic

/-!
# Column pairs

A board with an even number of columns is its column pairs, read row by row (`sidesOf_pairs`). Laid
out from a list of dominoes, these are the dominoes at the front of the list, and what follows them
leaves no trace (`pairs_of_board`). So lists of dominoes in lexicographic order give boards whose
cells are in lexicographic order, unless they are the same board (`eq_or_lt_of_lex`).
-/

namespace DominoTiling

namespace Domino

/-- The order of the complete set: by the first side, then by the second. -/
def Before (a b : Domino) : Prop := a.side1 < b.side1 ∨ (a.side1 = b.side1 ∧ a.side2 < b.side2)

end Domino

namespace Layout
variable {rows cols half : Nat} {b b' : Board} {ds es : List Domino}

theorem sidesOf_injective (h : sidesOf ds = sidesOf es) : ds = es := by
  induction ds generalizing es with
  | nil =>
    cases es with
    | nil => rfl
    | cons e es => simp at h
  | cons d ds ih =>
    cases es with
    | nil => simp at h
    | cons e es =>
      obtain ⟨m, n⟩ := d
      obtain ⟨m', n'⟩ := e
      simp only [sidesOf_cons, List.cons.injEq] at h
      obtain ⟨rfl, rfl, h⟩ := h
      rw [ih h]

theorem sidesOf_lt (h : List.Lex Domino.Before ds es) : sidesOf ds < sidesOf es := by
  induction h with
  | nil => exact .nil
  | cons _ ih => exact .cons (.cons ih)
  | @rel d _ e _ hbefore =>
    rcases hbefore with h1 | ⟨h1, h2⟩
    · exact .rel h1
    · rw [sidesOf_cons, sidesOf_cons, h1]
      exact .cons (.rel h2)

theorem sidesOf_rowPairs (row : List Nat) (h : row.length % 2 = 0) : sidesOf (rowPairs row) = row := by
  induction row using rowPairs.induct with
  | case1 m n rest ih =>
    have hrest : rest.length % 2 = 0 := by simpa [Nat.add_assoc] using h
    rw [rowPairs, sidesOf_cons, ih hrest]
  | case2 row hrow =>
    match row with
    | [] => rfl
    | [m] => simp at h
    | m :: n :: rest => exact absurd rfl (hrow m n rest)

/-- With an even number of columns, the column pairs have all cells. -/
theorem sidesOf_pairs (h : b.cols % 2 = 0) : sidesOf (pairs b) = b.cells.toList := by
  have hrows : ∀ row ∈ b.toRows, sidesOf (rowPairs row) = row := fun row hrow =>
    sidesOf_rowPairs row (by rw [Grid.length_of_mem_toRows hrow, h])
  have hflat : ∀ rs : List (List Nat), (∀ row ∈ rs, sidesOf (rowPairs row) = row) →
      sidesOf (rs.flatMap rowPairs) = rs.flatten := by
    intro rs hrs
    induction rs with
    | nil => rfl
    | cons row rs ih =>
      rw [List.forall_mem_cons] at hrs
      rw [List.flatMap_cons, sidesOf_append, hrs.1, ih hrs.2, List.flatten_cons]
  rw [pairs, hflat _ hrows, Grid.flatten_toRows]

theorem cells_of_board (heven : cols % 2 = 0) (h : board rows cols ds = .ok b) :
    b.cells.toList = sidesOf (ds.take (rows * cols / 2)) := by
  obtain ⟨half, rfl⟩ := Nat.dvd_of_mod_eq_zero heven
  rw [(of_board h).2.2.2, boardCells_even, Nat.mul_left_comm, Nat.mul_div_cancel_left _ (by decide)]

/-- The column pairs of a board are the dominoes it took. -/
theorem pairs_of_board (heven : cols % 2 = 0) (h : board rows cols ds = .ok b) :
    pairs b = ds.take (rows * cols / 2) := by
  have hcols := (of_board h).2.2.1
  exact sidesOf_injective ((sidesOf_pairs (hcols ▸ heven)).trans (cells_of_board heven h))

theorem board_unique (h : board rows cols ds = .ok b) (hrows : b'.rows = rows) (hcols : b'.cols = cols)
    (hcells : b'.cells.toList = b.cells.toList) : b' = b := by
  obtain ⟨-, hrows', hcols', -⟩ := of_board h
  have heq := Array.toList_inj.1 hcells
  exact Grid.ext_cells (hrows.trans hrows'.symm) (hcols.trans hcols'.symm) fun k => by rw [heq]

theorem eq_or_lex_take {r : Domino → Domino → Prop} (n : Nat) (h : List.Lex r ds es) :
    ds.take n = es.take n ∨ List.Lex r (ds.take n) (es.take n) := by
  induction h generalizing n with
  | nil =>
    cases n with
    | zero => exact .inl rfl
    | succ n => exact .inr .nil
  | cons _ ih =>
    cases n with
    | zero => exact .inl rfl
    | succ n =>
      rcases ih n with heq | hlex
      · exact .inl (by rw [List.take_succ_cons, List.take_succ_cons, heq])
      · exact .inr (.cons hlex)
  | rel hr =>
    cases n with
    | zero => exact .inl rfl
    | succ n => exact .inr (.rel hr)

/-- Lists of dominoes in ascending order give boards in ascending order. Where they differ only
behind what a board takes, the boards are the same. -/
theorem eq_or_lt_of_lex (heven : cols % 2 = 0) (h : board rows cols ds = .ok b)
    (h' : board rows cols es = .ok b') (hlex : List.Lex Domino.Before ds es) :
    b = b' ∨ b.cells.toList < b'.cells.toList := by
  rw [cells_of_board heven h, cells_of_board heven h']
  rcases eq_or_lex_take (rows * cols / 2) hlex with heq | hlt
  · obtain ⟨-, hrows, hcols, -⟩ := of_board h
    refine .inl (board_unique h' hrows hcols ?_)
    rw [cells_of_board heven h, cells_of_board heven h', heq]
  · exact .inr (sidesOf_lt hlt)

end Layout
end DominoTiling
