import DominoTiling.Fault

/-!
# Grids

A rectangle of cells kept row by row in one array. That there are `rows * cols` of them, and that a
word can count them, is part of the type. The cell `(x, y)` is row `x`, column `y`.

Only the position `x * cols + y` is held against the number of cells, so a column past the end of
its row names a cell of a later row (`index`). Callers that want `y < cols` check it themselves.
`at?` reads a grid as a map from its cells, with nothing off the grid.
-/

namespace DominoTiling

/-- A rectangle of cells in row-major order. -/
structure Grid (α : Type) where
  rows : Nat
  cols : Nat
  cells : Array α
  size_cells : cells.size = rows * cols
  size_lt : cells.size < 2 ^ 64
  deriving DecidableEq

namespace Grid
variable {α : Type}

/-- The position of the cell `(x, y)` among the cells. -/
def index (g : Grid α) (x y : Nat) : Except Fault Nat := do
  let start ← word (x * g.cols)
  word (start + y)

def get (g : Grid α) (x y : Nat) : Except Fault α := do
  let i ← g.index x y
  match g.cells[i]? with
  | some a => .ok a
  | none => .error .outOfRange

def set (g : Grid α) (x y : Nat) (a : α) : Except Fault (Grid α) := do
  let i ← g.index x y
  if h : i < g.cells.size then
    .ok { g with
      cells := g.cells.set i a h
      size_cells := by rw [Array.size_set]; exact g.size_cells
      size_lt := by rw [Array.size_set]; exact g.size_lt }
  else
    .error .outOfRange

/-- The value of the cell `c`; off the grid there is none. -/
def at? (g : Grid α) (c : Nat × Nat) : Option α :=
  if c.1 < g.rows ∧ c.2 < g.cols then g.cells[c.1 * g.cols + c.2]? else none

/-- The cells of row `x`. The row must end within the cells; where `cols` is 0 every row does. -/
def row (g : Grid α) (x : Nat) : Except Fault (List α) := do
  let start ← word (x * g.cols)
  let next ← word (x + 1)
  let stop ← word (next * g.cols)
  if stop ≤ g.cells.size then
    .ok (g.cells.extract start stop).toList
  else
    .error .outOfRange

def toRows (g : Grid α) : List (List α) :=
  (List.range g.rows).map fun x => (g.cells.extract (x * g.cols) ((x + 1) * g.cols)).toList

def filled (rows cols : Nat) (a : α) (h : rows * cols < 2 ^ 64) : Grid α where
  rows := rows
  cols := cols
  cells := Array.replicate (rows * cols) a
  size_cells := Array.size_replicate
  size_lt := by rw [Array.size_replicate]; exact h

/-! ### The cells of a grid -/

theorem ext_cells {g h : Grid α} (hr : g.rows = h.rows) (hc : g.cols = h.cols)
    (hcells : ∀ k : Nat, g.cells[k]? = h.cells[k]?) : g = h := by
  obtain ⟨rows, cols, cells, _, _⟩ := g
  obtain ⟨rows', cols', cells', _, _⟩ := h
  obtain rfl : cells = cells' := Array.ext_getElem? hcells
  cases hr
  cases hc
  rfl

theorem pos_lt {g : Grid α} {x y : Nat} (hx : x < g.rows) (hy : y < g.cols) :
    x * g.cols + y < g.cells.size := by
  have h : (x + 1) * g.cols ≤ g.rows * g.cols := Nat.mul_le_mul_right _ hx
  rw [Nat.add_mul] at h
  rw [g.size_cells]
  omega

theorem pos_inj {cols x y x' y' : Nat} (hy : y < cols) (hy' : y' < cols)
    (h : x * cols + y = x' * cols + y') : x = x' ∧ y = y' := by
  have hx : x = x' := by
    have hdiv := congrArg (· / cols) h
    simp only [Nat.mul_comm _ cols, Nat.mul_add_div (Nat.zero_lt_of_lt hy), Nat.div_eq_of_lt hy,
      Nat.div_eq_of_lt hy'] at hdiv
    exact hdiv
  subst hx
  exact ⟨rfl, Nat.add_left_cancel h⟩

theorem index_of_lt {g : Grid α} {x y : Nat} (hx : x < g.rows) (hy : y < g.cols) :
    g.index x y = .ok (x * g.cols + y) := by
  have h := Nat.lt_trans (pos_lt hx hy) g.size_lt
  simp only [index, word_of_lt (Nat.lt_of_le_of_lt (Nat.le_add_right _ y) h)]
  exact word_of_lt h

theorem index_eq_ok {g : Grid α} {x y k : Nat} (h : g.index x y = .ok k) : k = x * g.cols + y := by
  obtain ⟨start, hstart, h⟩ := bind_eq_ok_iff.1 h
  obtain ⟨-, rfl⟩ := word_eq_ok_iff.1 hstart
  exact (word_eq_ok_iff.1 h).2

theorem at?_of_lt {g : Grid α} {x y : Nat} (hx : x < g.rows) (hy : y < g.cols) :
    g.at? (x, y) = g.cells[x * g.cols + y]? := if_pos ⟨hx, hy⟩

theorem lt_of_at? {g : Grid α} {c : Nat × Nat} {a : α} (h : g.at? c = some a) :
    c.1 < g.rows ∧ c.2 < g.cols := by
  by_cases hc : c.1 < g.rows ∧ c.2 < g.cols
  · exact hc
  · rw [at?, if_neg hc] at h
    cases h

theorem lt_word_of_lt {g : Grid α} {x y : Nat} (hx : x < g.rows) (hy : y < g.cols) :
    x < 2 ^ 64 ∧ y < 2 ^ 64 := by
  have hpos := Nat.lt_trans (pos_lt hx hy) g.size_lt
  have hle : x * 1 ≤ x * g.cols := Nat.mul_le_mul_left x (Nat.zero_lt_of_lt hy)
  omega

theorem exists_at? {g : Grid α} {c : Nat × Nat} (h : c.1 < g.rows ∧ c.2 < g.cols) :
    ∃ a, g.at? c = some a := by
  rw [at?, if_pos h, Array.getElem?_eq_getElem (pos_lt h.1 h.2)]
  exact ⟨_, rfl⟩

theorem at?_eq_none_iff {g : Grid α} {c : Nat × Nat} :
    g.at? c = none ↔ ¬ (c.1 < g.rows ∧ c.2 < g.cols) := by
  constructor
  · intro h hc
    obtain ⟨a, ha⟩ := exists_at? hc
    rw [h] at ha
    cases ha
  · exact fun hc => if_neg hc

/-- Every position is that of a cell. -/
theorem at?_div_mod {g : Grid α} {k : Nat} (hk : k < g.cells.size) :
    g.at? (k / g.cols, k % g.cols) = g.cells[k]? := by
  have hsize := g.size_cells
  have hcols : 0 < g.cols := by
    rcases Nat.eq_zero_or_pos g.cols with h0 | h0
    · rw [h0, Nat.mul_zero] at hsize
      omega
    · exact h0
  have hrow : k / g.cols < g.rows :=
    Nat.div_lt_of_lt_mul (by rw [Nat.mul_comm, ← hsize]; exact hk)
  rw [at?_of_lt hrow (Nat.mod_lt k hcols), Nat.mul_comm, Nat.div_add_mod]

/-- The value that is read is that of the cell at the position. -/
theorem get_eq_ok_iff {g : Grid α} {x y : Nat} {a : α} :
    g.get x y = .ok a ↔ g.index x y = .ok (x * g.cols + y) ∧ g.cells[x * g.cols + y]? = some a := by
  constructor
  · intro h
    obtain ⟨k, hk, h⟩ := bind_eq_ok_iff.1 h
    obtain rfl := index_eq_ok hk
    split at h
    · rename_i b hb
      exact ⟨hk, by rw [hb, Except.ok.inj h]⟩
    · cases h
  · rintro ⟨hk, ha⟩
    simp only [get, hk, bind, Except.bind, ha]

theorem get_eq_ok_iff_at? {g : Grid α} {x y : Nat} {a : α} (hx : x < g.rows) (hy : y < g.cols) :
    g.get x y = .ok a ↔ g.at? (x, y) = some a := by
  rw [get_eq_ok_iff, index_of_lt hx hy, at?_of_lt hx hy]
  exact ⟨And.right, fun h => ⟨rfl, h⟩⟩

theorem exists_get {g : Grid α} {x y : Nat} (hx : x < g.rows) (hy : y < g.cols) :
    ∃ a, g.get x y = .ok a := by
  obtain ⟨a, ha⟩ := exists_at? (g := g) (c := (x, y)) ⟨hx, hy⟩
  exact ⟨a, (get_eq_ok_iff_at? hx hy).2 ha⟩

theorem rows_lt_word {g : Grid α} {y : Nat} (hy : y < g.cols) : g.rows < 2 ^ 64 := by
  have hle : g.rows * 1 ≤ g.rows * g.cols := Nat.mul_le_mul_left _ (Nat.zero_lt_of_lt hy)
  have hlt := g.size_lt
  rw [g.size_cells] at hlt
  omega

theorem cols_lt_word {g : Grid α} {x : Nat} (hx : x < g.rows) : g.cols < 2 ^ 64 := by
  have hle : 1 * g.cols ≤ g.rows * g.cols := Nat.mul_le_mul_right _ (Nat.zero_lt_of_lt hx)
  have hlt := g.size_lt
  rw [g.size_cells] at hlt
  omega

/-- A cell that is set changes, no other one does. -/
theorem set_eq_ok {g g' : Grid α} {x y : Nat} {a : α} (h : g.set x y a = .ok g') :
    g'.rows = g.rows ∧ g'.cols = g.cols ∧
      ∀ k : Nat, g'.cells[k]? = if k = x * g.cols + y then some a else g.cells[k]? := by
  obtain ⟨i, hi, h⟩ := bind_eq_ok_iff.1 h
  obtain rfl := index_eq_ok hi
  split at h
  · obtain rfl := Except.ok.inj h
    refine ⟨rfl, rfl, fun k => ?_⟩
    simp only [Array.getElem?_set, eq_comm]
  · cases h

theorem at?_set {g g' : Grid α} {x y : Nat} {a : α} (h : g.set x y a = .ok g') (hx : x < g.rows)
    (hy : y < g.cols) (c : Nat × Nat) : g'.at? c = if c = (x, y) then some a else g.at? c := by
  obtain ⟨hr, hc, hcells⟩ := set_eq_ok h
  by_cases hon : c.1 < g.rows ∧ c.2 < g.cols
  · have hpos : c.1 * g.cols + c.2 = x * g.cols + y ↔ c = (x, y) :=
      ⟨fun e => Prod.ext_iff.2 (pos_inj hon.2 hy e), fun e => by rw [e]⟩
    simp only [at?, hr, hc, hon, and_self, ↓reduceIte, hcells, hpos]
  · have hne : c ≠ (x, y) := fun e => hon (e ▸ ⟨hx, hy⟩)
    simp only [at?, hr, hc, hon, ↓reduceIte, hne]

theorem set_of_lt {g : Grid α} {x y : Nat} (hx : x < g.rows) (hy : y < g.cols) (a : α) :
    ∃ g', g.set x y a = .ok g' := by
  simp only [set, index_of_lt hx hy, bind, Except.bind, pos_lt hx hy, ↓reduceDIte]
  exact ⟨_, rfl⟩

theorem at?_filled {rows cols : Nat} {a : α} {h : rows * cols < 2 ^ 64} {c : Nat × Nat} :
    (filled rows cols a h).at? c = if c.1 < rows ∧ c.2 < cols then some a else none := by
  by_cases hc : c.1 < rows ∧ c.2 < cols
  · have hpos := pos_lt (g := filled rows cols a h) hc.1 hc.2
    simp only [filled, Array.size_replicate] at hpos
    simp only [at?, filled, hc, and_self, ↓reduceIte, Array.getElem?_replicate, hpos]
  · simp only [at?, filled, hc, ↓reduceIte]

/-! ### The rows of a grid -/

theorem toRows_eq (g : Grid α) :
    g.toRows = (List.range g.rows).map fun x => (g.cells.toList.drop (x * g.cols)).take g.cols := by
  refine List.map_congr_left fun x _ => ?_
  rw [Array.toList_extract, List.extract_eq_take_drop, Nat.succ_mul, Nat.add_sub_cancel_left]

theorem length_toRows (g : Grid α) : g.toRows.length = g.rows := by
  rw [toRows, List.length_map, List.length_range]

theorem length_of_mem_toRows {g : Grid α} {r : List α} (h : r ∈ g.toRows) : r.length = g.cols := by
  rw [toRows_eq] at h
  obtain ⟨x, hx, rfl⟩ := List.mem_map.1 h
  have hle : (x + 1) * g.cols ≤ g.rows * g.cols := Nat.mul_le_mul_right _ (List.mem_range.1 hx)
  rw [Nat.succ_mul, ← g.size_cells] at hle
  rw [List.length_take, List.length_drop, Array.length_toList]
  omega

theorem flatten_toRows (g : Grid α) : g.toRows.flatten = g.cells.toList := by
  have htake : ∀ n, ((List.range n).map fun x =>
      (g.cells.toList.drop (x * g.cols)).take g.cols).flatten = g.cells.toList.take (n * g.cols) := by
    intro n
    induction n with
    | zero => simp
    | succ n ih =>
      rw [List.range_succ, List.map_append, List.flatten_append, ih, Nat.succ_mul, List.take_add]
      simp
  rw [toRows_eq, htake]
  exact List.take_of_length_le (Nat.le_of_eq (Array.length_toList.trans g.size_cells))

end Grid
end DominoTiling
