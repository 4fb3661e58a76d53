import DominoTiling.Placement

/-!
# Where a domino fits

A domino lies to the right of its anchor cell or below it. It fits if the two cells are on the board
and empty and have its pips. Only the second cell is held against the bounds of the board: an anchor
off the board has its second cell off the board too.
-/

namespace DominoTiling

/-- The direction from the anchor of a domino to its second cell. -/
inductive Orientation where
  | horizontal
  | vertical
  deriving DecidableEq

namespace Orientation

/-- The second cell of a domino anchored at `(x, y)`. -/
def partner (o : Orientation) (x y : Nat) : Except Fault (Nat × Nat) :=
  match o with
  | horizontal => (word (y + 1)).map fun y' => (x, y')
  | vertical => (word (x + 1)).map fun x' => (x', y)

/-- The cell to the right of `c` or below it. -/
def mate (o : Orientation) (c : Nat × Nat) : Nat × Nat :=
  match o with
  | horizontal => (c.1, c.2 + 1)
  | vertical => (c.1 + 1, c.2)

theorem partner_eq_ok {o : Orientation} {x y : Nat} {c : Nat × Nat} (h : o.partner x y = .ok c) :
    c = o.mate (x, y) := by
  cases o <;> simp only [partner, word] at h <;> split at h <;> cases h <;> rfl

theorem partner_of_lt {o : Orientation} {x y : Nat}
    (h : (o.mate (x, y)).1 < 2 ^ 64 ∧ (o.mate (x, y)).2 < 2 ^ 64) :
    o.partner x y = .ok (o.mate (x, y)) := by
  cases o with
  | horizontal => rw [partner, word_of_lt (show y + 1 < 2 ^ 64 from h.2)]; rfl
  | vertical => rw [partner, word_of_lt (show x + 1 < 2 ^ 64 from h.1)]; rfl

theorem mate_ne (o : Orientation) (c : Nat × Nat) : o.mate c ≠ c := by
  cases o <;> intro h <;> have := Prod.ext_iff.1 h <;> simp [mate] at this

theorem lt_of_mate_lt {o : Orientation} {c : Nat × Nat} {rows cols : Nat}
    (h : (o.mate c).1 < rows ∧ (o.mate c).2 < cols) : c.1 < rows ∧ c.2 < cols := by
  cases o <;> simp only [mate] at h <;> omega

end Orientation

namespace Domino

/-- Does the domino fit at the anchor `(x, y)` in this direction? -/
def fits (d : Domino) (b : Board) (p : Placement) (x y : Nat) (o : Orientation) :
    Except Fault Bool := do
  let (x', y') ← o.partner x y
  if b.rows ≤ x' ∨ b.cols ≤ y' then return false
  if ← p.isSet x y then return false
  if ← p.isSet x' y' then return false
  let m ← b.get x y
  let n ← b.get x' y'
  return d.covers m n

/-- Where a domino fits both cells read as empty. -/
theorem fits_eq_true {d : Domino} {b : Board} {p : Placement} {x y : Nat} {o : Orientation}
    (h : d.fits b p x y o = .ok true) :
    ((o.mate (x, y)).1 < b.rows ∧ (o.mate (x, y)).2 < b.cols) ∧ p.isSet x y = .ok false ∧
      p.isSet (o.mate (x, y)).1 (o.mate (x, y)).2 = .ok false ∧
      ∃ m n, b.get x y = .ok m ∧ b.get (o.mate (x, y)).1 (o.mate (x, y)).2 = .ok n ∧
        d.covers m n = true := by
  obtain ⟨c, hc, h⟩ := bind_eq_ok_iff.1 h
  obtain rfl := Orientation.partner_eq_ok hc
  dsimp only at h
  split at h
  · cases h
  · rename_i hon
    obtain ⟨s, hs, h⟩ := bind_eq_ok_iff.1 h
    cases s with
    | true => cases h
    | false =>
      obtain ⟨s', hs', h⟩ := bind_eq_ok_iff.1 h
      cases s' with
      | true => cases h
      | false =>
        obtain ⟨m, hm, h⟩ := bind_eq_ok_iff.1 h
        obtain ⟨n, hn, h⟩ := bind_eq_ok_iff.1 h
        exact ⟨by omega, hs, hs', m, n, hm, hn, Except.ok.inj h⟩

/-- A domino fits exactly if both cells are empty and have its pips. -/
theorem fits_iff {d : Domino} {b : Board} {p : Placement} {x y : Nat} {o : Orientation}
    (hp : p.HasShape b) :
    d.fits b p x y o = .ok true ↔
      p.at? (x, y) = some none ∧ p.at? (o.mate (x, y)) = some none ∧
        ∃ m n, b.at? (x, y) = some m ∧ b.at? (o.mate (x, y)) = some n ∧ d.covers m n = true := by
  constructor
  · intro h
    obtain ⟨hmate, hs, hs', m, n, hm, hn, hcov⟩ := fits_eq_true h
    have hcell := Orientation.lt_of_mate_lt hmate
    have hmate' := hmate
    have hcell' := hcell
    rw [← hp.1, ← hp.2] at hmate' hcell'
    exact ⟨(Placement.isSet_false_iff hcell'.1 hcell'.2).1 hs,
      (Placement.isSet_false_iff hmate'.1 hmate'.2).1 hs', m, n,
      (Grid.get_eq_ok_iff_at? hcell.1 hcell.2).1 hm, (Grid.get_eq_ok_iff_at? hmate.1 hmate.2).1 hn,
      hcov⟩
  · rintro ⟨hs, hs', m, n, hm, hn, hcov⟩
    have hcell := Grid.lt_of_at? hm
    have hmate := Grid.lt_of_at? hn
    have hcell' := Grid.lt_of_at? hs
    have hmate' := Grid.lt_of_at? hs'
    have hpartner := Orientation.partner_of_lt (Grid.lt_word_of_lt hmate.1 hmate.2)
    have hon : ¬ (b.rows ≤ (o.mate (x, y)).1 ∨ b.cols ≤ (o.mate (x, y)).2) := by omega
    simp only [fits, hpartner, bind, Except.bind, hon, ↓reduceIte,
      (Placement.isSet_false_iff hcell'.1 hcell'.2).2 hs,
      (Placement.isSet_false_iff hmate'.1 hmate'.2).2 hs',
      (Grid.get_eq_ok_iff_at? hcell.1 hcell.2).2 hm, (Grid.get_eq_ok_iff_at? hmate.1 hmate.2).2 hn,
      hcov]
    rfl

/-- With the second cell off the board a domino does not fit. No cell is looked up for that. -/
theorem fits_of_off {d : Domino} {b : Board} {p : Placement} {x y : Nat} {o : Orientation}
    {c : Nat × Nat} (hc : o.partner x y = .ok c) (hoff : ¬ (c.1 < b.rows ∧ c.2 < b.cols)) :
    d.fits b p x y o = .ok false := by
  simp only [fits, hc, bind, Except.bind]
  exact if_pos (by omega)

/-- Where there is a second cell, whether a domino fits has an answer. -/
theorem exists_fits {d : Domino} {b : Board} {p : Placement} {x y : Nat} {o : Orientation}
    {c : Nat × Nat} (hp : p.HasShape b) (hc : o.partner x y = .ok c) :
    ∃ v, d.fits b p x y o = .ok v := by
  by_cases hon : c.1 < b.rows ∧ c.2 < b.cols
  · obtain rfl := Orientation.partner_eq_ok hc
    have hcell := Orientation.lt_of_mate_lt hon
    obtain ⟨v, hv⟩ := Placement.exists_isSet (hp.1 ▸ hcell.1) (hp.2 ▸ hcell.2)
    obtain ⟨v', hv'⟩ := Placement.exists_isSet (hp.1 ▸ hon.1) (hp.2 ▸ hon.2)
    obtain ⟨m, hm⟩ := Grid.exists_get hcell.1 hcell.2
    obtain ⟨n, hn⟩ := Grid.exists_get hon.1 hon.2
    have hbounds : ¬ (b.rows ≤ (o.mate (x, y)).1 ∨ b.cols ≤ (o.mate (x, y)).2) := by omega
    simp only [fits, hc, bind, Except.bind, hbounds, ↓reduceIte, hv, hv', hm, hn]
    cases v <;> cases v' <;> exact ⟨_, rfl⟩
  · exact ⟨false, fits_of_off hc hon⟩

end Domino
end DominoTiling
