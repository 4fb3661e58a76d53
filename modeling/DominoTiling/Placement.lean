import DominoTiling.Board
import DominoTiling.Domino

/-!
# Placements

A placement says which domino, by its position in a list, lies on each cell; an empty cell holds
none. It covers a board exactly if every cell holds a position and every position that occurs is on
two adjacent cells with the pips of its domino (`coversExactly`).
-/

namespace DominoTiling

/-- A grid of positions in a list of dominoes. -/
abbrev Placement := Grid (Option Nat)

namespace Placement

/-- The empty placement. A cell takes sixteen bytes. -/
def empty (rows cols : Nat) : Except Fault Placement :=
  if h : rows * cols < 2 ^ 64 then do
    allocate 16 (rows * cols)
    return Grid.filled rows cols none h
  else
    .error .overflow

def forBoard (b : Board) : Except Fault Placement := empty b.rows b.cols

/-- Is there a domino on the cell `(x, y)`? -/
def isSet (p : Placement) (x y : Nat) : Except Fault Bool := do
  return (← p.get x y).isSome

def isClear (p : Placement) : Bool := p.cells.all Option.isNone

def isComplete (p : Placement) : Bool := p.cells.all Option.isSome

def HasShape (p : Placement) (b : Board) : Prop := p.rows = b.rows ∧ p.cols = b.cols

def checkShape (p : Placement) (b : Board) : Except PuzzleError Unit :=
  if p.rows ≠ b.rows ∨ p.cols ≠ b.cols then
    .error (.dimensionMismatch b.rows b.cols p.rows p.cols)
  else
    .ok ()

/-- The cells of a board in row-major order. -/
def cellsOf (b : Board) : List (Nat × Nat) :=
  (List.range b.rows).flatMap fun x => (List.range b.cols).map fun y => (x, y)

/-- Two cells with a side in common. -/
def adjacent (a b : Nat × Nat) : Bool :=
  (a.1 == b.1 && (a.2 + 1 == b.2 || b.2 + 1 == a.2)) ||
    (a.2 == b.2 && (a.1 + 1 == b.1 || b.1 + 1 == a.1))

def cellsHolding (p : Placement) (b : Board) (i : Nat) : List (Nat × Nat) :=
  (cellsOf b).filter fun c => (p.get c.1 c.2).toOption == some (some i)

/-- Does the domino at position `i` lie on two adjacent cells with its pips, and nowhere else? -/
def coversPair (p : Placement) (b : Board) (dominoes : Array Domino) (i : Nat) : Bool :=
  match p.cellsHolding b i, dominoes[i]? with
  | [u, v], some d =>
    adjacent u v &&
      match (b.get u.1 u.2).toOption, (b.get v.1 v.2).toOption with
      | some m, some n => d.covers m n
      | _, _ => false
  | _, _ => false

def coversExactly (p : Placement) (b : Board) (dominoes : Array Domino) : Bool :=
  p.rows == b.rows && p.cols == b.cols &&
    (cellsOf b).all fun c =>
      match (p.get c.1 c.2).toOption with
      | some (some i) => p.coversPair b dominoes i
      | _ => false

theorem checkShape_eq_ok_iff {p : Placement} {b : Board} :
    p.checkShape b = .ok () ↔ p.HasShape b := by
  unfold checkShape HasShape
  split
  · rename_i h
    exact ⟨fun e => (by cases e), fun e => absurd e (by omega)⟩
  · rename_i h
    exact ⟨fun _ => (by omega), fun _ => rfl⟩

theorem checkShape_eq_error_iff {p : Placement} {b : Board} {e : PuzzleError} :
    p.checkShape b = .error e ↔
      ¬ p.HasShape b ∧ e = .dimensionMismatch b.rows b.cols p.rows p.cols := by
  unfold checkShape HasShape
  split
  · rename_i h
    exact ⟨fun he => ⟨by omega, (Except.error.inj he).symm⟩, fun he => by rw [he.2]⟩
  · rename_i h
    exact ⟨fun he => (by cases he), fun he => absurd he.1 (by omega)⟩

theorem isSet_eq_ok_iff {p : Placement} {x y : Nat} {v : Bool} :
    p.isSet x y = .ok v ↔ ∃ o, p.get x y = .ok o ∧ o.isSome = v := by
  refine bind_eq_ok_iff.trans (exists_congr fun o => and_congr_right fun _ => ?_)
  exact ⟨fun h => Except.ok.inj h, fun h => congrArg _ h⟩

/-- A cell that reads as empty holds nothing at its position, on the grid or off it. -/
theorem cells_of_isSet {p : Placement} {x y : Nat} (h : p.isSet x y = .ok false) :
    p.cells[x * p.cols + y]? = some none := by
  obtain ⟨o, hget, ho⟩ := isSet_eq_ok_iff.1 h
  rw [(Grid.get_eq_ok_iff.1 hget).2, Option.isSome_eq_false_iff.1 ho |> Option.isNone_iff_eq_none.1]

theorem isSet_false_iff {p : Placement} {x y : Nat} (hx : x < p.rows) (hy : y < p.cols) :
    p.isSet x y = .ok false ↔ p.at? (x, y) = some none := by
  rw [isSet_eq_ok_iff]
  constructor
  · rintro ⟨o, hget, ho⟩
    cases o with
    | none => exact (Grid.get_eq_ok_iff_at? hx hy).1 hget
    | some i => cases ho
  · intro h
    exact ⟨none, (Grid.get_eq_ok_iff_at? hx hy).2 h, rfl⟩

theorem isSet_true_iff {p : Placement} {x y : Nat} (hx : x < p.rows) (hy : y < p.cols) :
    p.isSet x y = .ok true ↔ ∃ i, p.at? (x, y) = some (some i) := by
  rw [isSet_eq_ok_iff]
  constructor
  · rintro ⟨o, hget, ho⟩
    cases o with
    | none => cases ho
    | some i => exact ⟨i, (Grid.get_eq_ok_iff_at? hx hy).1 hget⟩
  · rintro ⟨i, h⟩
    exact ⟨some i, (Grid.get_eq_ok_iff_at? hx hy).2 h, rfl⟩

theorem exists_isSet {p : Placement} {x y : Nat} (hx : x < p.rows) (hy : y < p.cols) :
    ∃ v, p.isSet x y = .ok v := by
  obtain ⟨o, ho⟩ := Grid.exists_get hx hy
  exact ⟨o.isSome, isSet_eq_ok_iff.2 ⟨o, ho, rfl⟩⟩

theorem isClear_iff {p : Placement} : p.isClear = true ↔ ∀ c o, p.at? c = some o → o = none := by
  rw [isClear, Array.all_eq_true]
  constructor
  · intro h c o ho
    obtain ⟨hx, hy⟩ := Grid.lt_of_at? ho
    rw [Grid.at?_of_lt hx hy, Array.getElem?_eq_getElem (Grid.pos_lt hx hy)] at ho
    have hnone := h _ (Grid.pos_lt hx hy)
    rw [Option.some.inj ho] at hnone
    exact Option.isNone_iff_eq_none.1 hnone
  · intro h k hk
    have hat := Grid.at?_div_mod hk
    rw [Array.getElem?_eq_getElem hk] at hat
    rw [h _ _ hat, Option.isNone_none]

theorem exists_forBoard {b : Board} (h : 16 * (b.rows * b.cols) < 2 ^ 63) :
    ∃ p, forBoard b = .ok p := by
  unfold forBoard empty
  rw [dif_pos (by omega), allocate_of_lt h]
  exact ⟨_, rfl⟩

theorem forBoard_of_le {b : Board} (h : 2 ^ 63 ≤ 16 * (b.rows * b.cols)) :
    forBoard b = .error .tooBig := by
  have hword : b.rows * b.cols < 2 ^ 64 := b.size_cells ▸ b.size_lt
  unfold forBoard empty
  rw [dif_pos hword, allocate_of_le h]
  rfl

theorem at?_forBoard {p : Placement} {b : Board} (h : forBoard b = .ok p) :
    p.HasShape b ∧ ∀ c, p.at? c = if c.1 < b.rows ∧ c.2 < b.cols then some none else none := by
  unfold forBoard empty at h
  split at h
  · obtain ⟨_, -, h⟩ := bind_eq_ok_iff.1 h
    obtain rfl := Except.ok.inj h
    exact ⟨⟨rfl, rfl⟩, fun c => Grid.at?_filled⟩
  · cases h

theorem isClear_forBoard {p : Placement} {b : Board} (h : forBoard b = .ok p) :
    p.isClear = true := by
  rw [isClear_iff]
  intro c o ho
  rw [(at?_forBoard h).2] at ho
  split at ho
  · exact (Option.some.inj ho).symm
  · cases ho

end Placement
end DominoTiling
