import DominoTiling.Proofs.BoardGrammar

/-!
# Boards made from rows

Rows make a board exactly if they are a `Rectangle`: there is a cell, and every row is as long as the
first. The board has the same rows again and the entry of each row in its cell, so nothing is lost
(`Grid.at?_eq_toRows`).

Rows are looked at in their order. Whether there is a cell is decided by the first row alone, whatever
the others are; only then is the length of each held against the first, and the first one that differs
is reported (`ofRows_outcome`).
-/

namespace DominoTiling

/-- The cells of a grid are the entries of its rows. -/
theorem Grid.at?_eq_toRows {α : Type} (g : Grid α) (x y : Nat) :
    g.at? (x, y) = g.toRows[x]?.bind fun row => row[y]? := by
  rw [toRows_eq, List.getElem?_map]
  by_cases hx : x < g.rows
  · rw [List.getElem?_range hx]
    by_cases hy : y < g.cols
    · simp [at?_of_lt hx hy, List.getElem?_drop, hy]
    · rw [at?, if_neg fun h => hy h.2]
      exact (List.getElem?_eq_none
        (Nat.le_trans (List.length_take_le ..) (Nat.le_of_not_lt hy))).symm
  · rw [List.getElem?_eq_none (by simpa using Nat.le_of_not_lt hx)]
    simp [at?, hx]

namespace Board
variable {rows : List (List Nat)} {row : List Nat} {b : Board} {i : Nat}

/-- The length of the first row, 0 if there is none. -/
def width (rows : List (List Nat)) : Nat := (rows.head?.map List.length).getD 0

/-- There is a cell, and every row is as long as the first. -/
structure Rectangle (rows : List (List Nat)) : Prop where
  ne_nil : rows ≠ []
  width_pos : 1 ≤ width rows
  length_eq : ∀ row ∈ rows, row.length = width rows

/-- The row at position `i` is the first one that is not as long as the first. -/
structure FirstRagged (rows : List (List Nat)) (i : Nat) (row : List Nat) : Prop where
  row_eq : rows[i]? = some row
  length_ne : row.length ≠ width rows
  before : ∀ j < i, ∀ r, rows[j]? = some r → r.length = width rows

/-! ### Rows that make a board -/

theorem rectangle_toRows (hrows : 1 ≤ b.rows) (hcols : 1 ≤ b.cols) :
    Rectangle b.toRows ∧ width b.toRows = b.cols := by
  have hne : b.toRows ≠ [] := List.ne_nil_of_length_pos (by rw [Grid.length_toRows]; exact hrows)
  obtain ⟨row, rest, hcons⟩ := List.exists_cons_of_ne_nil hne
  have hlength : ∀ row ∈ b.toRows, row.length = b.cols := fun row => Grid.length_of_mem_toRows
  have hwidth : width b.toRows = b.cols := by
    rw [width, hcons]
    exact hlength row (hcons ▸ List.mem_cons_self ..)
  exact ⟨⟨hne, by rw [hwidth]; exact hcols, fun row hrow => (hlength row hrow).trans hwidth.symm⟩,
    hwidth⟩

theorem Rectangle.exists_ofRows (h : Rectangle rows) (hcells : rows.length * width rows < 2 ^ 61) :
    ∃ b, ofRows rows = .ok b := by
  obtain ⟨b, hb, -⟩ := ofRows_of_rectangle h.ne_nil h.width_pos h.length_eq (by omega)
  exact ⟨b, hb⟩

/-- A cell of the board reads as the entry that stands there in the rows. -/
theorem get_of_ofRows (h : ofRows rows = .ok b) {x y n : Nat} (hrow : rows[x]? = some row)
    (hentry : row[y]? = some n) : b.get x y = .ok n := by
  obtain ⟨-, -, -, rfl⟩ := of_ofRows h
  have hat : b.at? (x, y) = some n := by
    rw [Grid.at?_eq_toRows, hrow]
    exact hentry
  obtain ⟨hx, hy⟩ := Grid.lt_of_at? hat
  exact (Grid.get_eq_ok_iff_at? hx hy).2 hat

/-! ### Rows that do not -/

theorem ofRows_of_empty (h : rows = [] ∨ width rows = 0) :
    ofRows rows = .error (.error (.nonPositiveDimensions rows.length (width rows))) := by
  have hempty : rows.length = 0 ∨ (rows.head?.map List.length).getD 0 = 0 :=
    h.imp_left List.length_eq_zero_iff.2
  unfold ofRows
  dsimp only
  rw [if_pos hempty]
  rfl

theorem FirstRagged.findIdx?_eq (h : FirstRagged rows i row) :
    rows.findIdx? (fun r => r.length != width rows) = some i := by
  obtain ⟨hi, hrow⟩ := List.getElem?_eq_some_iff.1 h.row_eq
  refine List.findIdx?_eq_some_iff_getElem.2 ⟨hi, ?_, ?_⟩
  · rw [hrow]
    simpa using h.length_ne
  · intro j hj
    have hlength := h.before j hj _ (List.getElem?_eq_getElem (Nat.lt_trans hj hi))
    simpa using hlength

theorem exists_firstRagged (h : ¬ ∀ row ∈ rows, row.length = width rows) :
    ∃ i row, FirstRagged rows i row := by
  cases hfind : rows.findIdx? fun r => r.length != width rows with
  | none => exact absurd (by simpa using List.findIdx?_eq_none_iff.1 hfind) h
  | some i =>
    obtain ⟨hi, hne, hbefore⟩ := List.findIdx?_eq_some_iff_getElem.1 hfind
    refine ⟨i, rows[i], List.getElem?_eq_getElem hi, by simpa using hne, ?_⟩
    intro j hj r hr
    obtain ⟨-, rfl⟩ := List.getElem?_eq_some_iff.1 hr
    simpa using hbefore j hj

theorem ofRows_of_firstRagged (hne : rows ≠ []) (hwidth : 1 ≤ width rows)
    (hcells : rows.length * width rows < 2 ^ 61) (h : FirstRagged rows i row) :
    ofRows rows = .error (.error (.raggedBoard i (width rows) row.length)) := by
  have hfind := h.findIdx?_eq
  have hrows := List.length_pos_iff.2 hne
  have hhead : (rows.head?.map List.length).getD 0 = width rows := rfl
  unfold ofRows
  simp only [hhead]
  rw [if_neg (by omega), dif_pos (by omega), allocate_of_lt (by omega), liftM_ok]
  simp only [pure, Except.pure, bind, Except.bind]
  split
  · rename_i i' hi'
    obtain rfl : i = i' := Option.some.inj (hfind.symm.trans hi')
    rw [h.row_eq]
    rfl
  · rename_i hnone
    rw [hhead, hfind] at hnone
    cases hnone

/-- Rows with room for their cells make a board exactly if they are a rectangle, and the board has them
as its rows, with each entry in its cell. Without a row, or with an empty first row, the two counts are
refused, whatever the other rows are. Otherwise what is refused is the first row that is not as long as
the first, with its length and the expected one. -/
theorem ofRows_outcome (rows : List (List Nat)) (hcells : rows.length * width rows < 2 ^ 61) :
    ((∃ b, ofRows rows = .ok b) ↔ Rectangle rows) ∧
    (∀ b, ofRows rows = .ok b →
      b.rows = rows.length ∧ b.cols = width rows ∧ b.toRows = rows ∧
      ∀ x y row n, rows[x]? = some row → row[y]? = some n → b.get x y = .ok n) ∧
    (rows = [] ∨ width rows = 0 →
      ofRows rows = .error (.error (.nonPositiveDimensions rows.length (width rows)))) ∧
    (rows ≠ [] → 1 ≤ width rows → ¬ Rectangle rows →
      ∃ i row, FirstRagged rows i row ∧
        ofRows rows = .error (.error (.raggedBoard i (width rows) row.length))) := by
  refine ⟨⟨?_, fun h => h.exists_ofRows hcells⟩, ?_, ofRows_of_empty, ?_⟩
  · rintro ⟨b, hb⟩
    obtain ⟨hrows, hcols, -, rfl⟩ := of_ofRows hb
    exact (rectangle_toRows hrows hcols).1
  · intro b hb
    obtain ⟨hrows, hcols, -, htoRows⟩ := of_ofRows hb
    obtain ⟨-, hwidth⟩ := rectangle_toRows hrows hcols
    rw [← htoRows, Grid.length_toRows]
    refine ⟨rfl, hwidth.symm, rfl, ?_⟩
    intro x y row n hrow hentry
    exact get_of_ofRows (htoRows.symm ▸ hb) hrow hentry
  · intro hne hwidth hragged
    have hlengths : ¬ ∀ row ∈ rows, row.length = width rows := fun h => hragged ⟨hne, hwidth, h⟩
    obtain ⟨i, row, hfirst⟩ := exists_firstRagged hlengths
    exact ⟨i, row, hfirst, ofRows_of_firstRagged hne hwidth hcells hfirst⟩

/-- Two rows that make a board, an empty first row, and a row that is too short before one that is too
long. -/
theorem ofRows_outcome_short_row :
    (∃ b, ofRows [[1, 2], [3, 4]] = .ok b ∧ b.toRows = [[1, 2], [3, 4]] ∧ b.get 1 0 = .ok 3) ∧
    ofRows [[], [1]] = .error (.error (.nonPositiveDimensions 2 0)) ∧
    ofRows [[1, 2], [3, 4], [5], [6, 7, 8]] = .error (.error (.raggedBoard 2 2 1)) := by
  obtain ⟨hiff, hmade, -, -⟩ := ofRows_outcome [[1, 2], [3, 4]] (by decide)
  obtain ⟨-, -, hempty, -⟩ := ofRows_outcome [[], [1]] (by decide)
  obtain ⟨-, -, -, hragged⟩ := ofRows_outcome [[1, 2], [3, 4], [5], [6, 7, 8]] (by decide)
  refine ⟨?_, hempty (.inr rfl), ?_⟩
  · obtain ⟨b, hb⟩ := hiff.2 ⟨by decide, by decide, by decide⟩
    obtain ⟨-, -, hrows, hget⟩ := hmade b hb
    exact ⟨b, hb, hrows, hget 1 0 [3, 4] 3 rfl rfl⟩
  · have hshort : ¬ Rectangle [[1, 2], [3, 4], [5], [6, 7, 8]] := fun h =>
      absurd (h.length_eq [5] (by decide)) (by decide)
    obtain ⟨i, row, hfirst, herror⟩ := hragged (by decide) (by decide) hshort
    obtain rfl : i = 2 := Option.some.inj (hfirst.findIdx?_eq.symm.trans rfl)
    obtain rfl : [5] = row := Option.some.inj hfirst.row_eq
    exact herror

end Board
end DominoTiling
