import DominoTiling.Search.Fit

/-!
# Anchors on the board and off it

A cell is looked up by its position alone, so a column past the end of its row is a cell of a later row
(`Grid.get_eq_wrapped`). Whether a domino fits is still exact at every anchor, whatever its coordinates
(`fits_at_every_anchor`): an anchor off the board has its second cell off the board, and then no cell is
looked up.
-/

namespace DominoTiling
variable {x y : Nat}

/-! ### Columns past the end of a row -/

namespace Grid
variable {α : Type}

/-- Where the row starts past the words, so does the position: only the position itself matters. -/
theorem index_eq_word (g : Grid α) (x y : Nat) : g.index x y = word (x * g.cols + y) := by
  by_cases hstart : x * g.cols < 2 ^ 64
  · rw [index, word_of_lt hstart]
    rfl
  · have hle := Nat.le_of_not_lt hstart
    rw [index, word_of_le hle, word_of_le (Nat.le_trans hle (Nat.le_add_right ..))]
    rfl

/-- The row that a column lies in, counted from the row `x` on, and the column there. -/
theorem index_eq_wrapped (g : Grid α) (x y : Nat) :
    g.index x y = g.index (x + y / g.cols) (y % g.cols) := by
  rw [index_eq_word, index_eq_word, Nat.add_mul, Nat.add_assoc, Nat.div_add_mod']

theorem get_eq_wrapped (g : Grid α) (x y : Nat) :
    g.get x y = g.get (x + y / g.cols) (y % g.cols) := by
  rw [get, index_eq_wrapped]
  rfl

end Grid

theorem Placement.isSet_eq_wrapped (p : Placement) (x y : Nat) :
    p.isSet x y = p.isSet (x + y / p.cols) (y % p.cols) := by
  rw [isSet, Grid.get_eq_wrapped]
  rfl

/-! ### Every anchor -/

namespace Domino
variable {d : Domino} {b : Board} {p : Placement} {o : Orientation} {c : Nat × Nat}

/-- What it means to fit, with the bounds of the board and the two orders of the sides written out. -/
theorem fits_iff_sides (hp : p.HasShape b) :
    d.fits b p x y o = .ok true ↔
      ((x < b.rows ∧ y < b.cols) ∧ (o.mate (x, y)).1 < b.rows ∧ (o.mate (x, y)).2 < b.cols) ∧
        (p.at? (x, y) = some none ∧ p.at? (o.mate (x, y)) = some none) ∧
        ∃ m n, b.at? (x, y) = some m ∧ b.at? (o.mate (x, y)) = some n ∧
          ((d.side1 = m ∧ d.side2 = n) ∨ (d.side1 = n ∧ d.side2 = m)) := by
  rw [fits_iff hp]
  constructor
  · rintro ⟨hs, hs', m, n, hm, hn, hcov⟩
    exact ⟨⟨Grid.lt_of_at? hm, Grid.lt_of_at? hn⟩, ⟨hs, hs'⟩, m, n, hm, hn, covers_iff.1 hcov⟩
  · rintro ⟨-, ⟨hs, hs'⟩, m, n, hm, hn, hsides⟩
    exact ⟨hs, hs', m, n, hm, hn, covers_iff.2 hsides⟩

/-- Where there is a second cell `c`, it is the neighbour of the anchor, and whether a domino fits has an
answer at any anchor: yes exactly if both cells are on the board and empty and have its pips, in either
order. With `c` off the board the answer is no whatever lies there, though the anchor may name a cell of
a later row: a look-up past the end of a row is one in a later row, on the board and on the placement. -/
theorem fits_at_every_anchor (hp : p.HasShape b) (hc : o.partner x y = .ok c) :
    c = o.mate (x, y) ∧
      (∃ v, d.fits b p x y o = .ok v ∧
        (v = true ↔
          ((x < b.rows ∧ y < b.cols) ∧ c.1 < b.rows ∧ c.2 < b.cols) ∧
            (p.at? (x, y) = some none ∧ p.at? c = some none) ∧
            ∃ m n, b.at? (x, y) = some m ∧ b.at? c = some n ∧
              ((d.side1 = m ∧ d.side2 = n) ∨ (d.side1 = n ∧ d.side2 = m)))) ∧
      (¬ (c.1 < b.rows ∧ c.2 < b.cols) → ∀ q : Placement, d.fits b q x y o = .ok false) ∧
      b.get x y = b.get (x + y / b.cols) (y % b.cols) ∧
      p.isSet x y = p.isSet (x + y / b.cols) (y % b.cols) := by
  obtain ⟨v, hv⟩ := d.exists_fits hp hc
  have hoff : ¬ (c.1 < b.rows ∧ c.2 < b.cols) → ∀ q : Placement, d.fits b q x y o = .ok false :=
    fun hoff _ => fits_of_off hc hoff
  obtain rfl := Orientation.partner_eq_ok hc
  refine ⟨rfl, ⟨v, hv, ?_⟩, hoff, b.get_eq_wrapped x y, ?_⟩
  · rw [← fits_iff_sides hp, hv, Except.ok.injEq]
  · rw [← hp.2]
    exact p.isSet_eq_wrapped x y

/-- An anchor past the end of the first row, and its second cell past that of the second row, name by
position two cells on which the domino fits. It fits there and not at that anchor. -/
theorem fits_at_every_anchor_past_row :
    ∃ (b : Board) (p : Placement), b.toRows = [[1, 1], [2, 1], [2, 1]] ∧ p.HasShape b ∧
      Orientation.vertical.partner 0 2 = .ok (1, 2) ∧
      b.get 0 2 = b.get 1 0 ∧ b.get 1 2 = b.get 2 0 ∧ p.isSet 0 2 = .ok false ∧
      (Domino.mk 2 2).fits b p 0 2 .vertical = .ok false ∧
      (Domino.mk 2 2).fits b p 1 0 .vertical = .ok true := by
  let b : Board := ⟨3, 2, #[1, 1, 2, 1, 2, 1], rfl, by decide⟩
  let p : Placement := ⟨3, 2, #[none, none, none, none, none, none], rfl, by decide⟩
  have hp : p.HasShape b := ⟨rfl, rfl⟩
  have hpast : Orientation.vertical.partner 0 2 = .ok (1, 2) := rfl
  have hon : Orientation.vertical.partner 1 0 = .ok (2, 0) := rfl
  obtain ⟨-, -, hoff, hwrapped, -⟩ := fits_at_every_anchor (d := ⟨2, 2⟩) hp hpast
  obtain ⟨-, ⟨v, hfits, hiff⟩, -⟩ := fits_at_every_anchor (d := ⟨2, 2⟩) hp hon
  have hrow : b.get 0 2 = b.get (0 + 2 / 2) (2 % 2) := hwrapped
  have hcells : (1 < b.rows ∧ 0 < b.cols) ∧ 2 < b.rows ∧ 0 < b.cols := by decide
  obtain rfl : v = true := hiff.2 ⟨hcells, ⟨rfl, rfl⟩, 2, 2, rfl, rfl, .inl ⟨rfl, rfl⟩⟩
  exact ⟨b, p, rfl, hp, hpast, hrow, rfl, rfl, hoff (by decide) p, hfits⟩

end Domino
end DominoTiling
