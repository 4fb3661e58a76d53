import DominoTiling.Search.Fit
import Mathlib.Data.List.Nodup

/-!
# Tilings of a region of a board

A `Tile` is a domino of a list on two cells of a board. A `Tiling` of a region covers every cell of
it once and nothing else, with tiles that lie on adjacent cells with the pips of their domino and no
domino twice. The order of the tiles and of the two cells of a tile do not matter (`Tiling.perm`,
`Tiling.flip_head`), so a tiling can be opened at the tile on any one of its cells
(`Tiling.exists_cons`) and rebuilt from there (`Tiling.cons_iff`).
-/

namespace DominoTiling

/-- The domino at a position of a list, on two cells. -/
structure Tile where
  index : Nat
  first : Nat × Nat
  second : Nat × Nat
  deriving DecidableEq

namespace Tile

def cells (t : Tile) : List (Nat × Nat) := [t.first, t.second]

@[simp] theorem mem_cells {t : Tile} {c : Nat × Nat} :
    c ∈ t.cells ↔ c = t.first ∨ c = t.second := by
  simp [cells]

def flip (t : Tile) : Tile := ⟨t.index, t.second, t.first⟩

/-- The two cells have a side in common and the pips of the domino, in either order. -/
structure Lies (b : Board) (ds : List Domino) (t : Tile) : Prop where
  adjacent : Placement.adjacent t.first t.second = true
  covers : ∃ d m n, ds[t.index]? = some d ∧ b.at? t.first = some m ∧ b.at? t.second = some n ∧
    d.covers m n = true

end Tile

/-- The tiles cover the region and nothing else, each cell once, and no domino lies twice. -/
structure Tiling (b : Board) (ds : List Domino) (region : Nat × Nat → Prop) (ts : List Tile) :
    Prop where
  lies : ∀ t ∈ ts, t.Lies b ds
  cells_nodup : (ts.flatMap Tile.cells).Nodup
  index_nodup : (ts.map Tile.index).Nodup
  mem_cells_iff : ∀ c, c ∈ ts.flatMap Tile.cells ↔ region c

/-! ### Adjacent cells -/

namespace Placement

theorem adjacent_iff {u v : Nat × Nat} :
    adjacent u v = true ↔
      (u.1 = v.1 ∧ (u.2 + 1 = v.2 ∨ v.2 + 1 = u.2)) ∨
        (u.2 = v.2 ∧ (u.1 + 1 = v.1 ∨ v.1 + 1 = u.1)) := by
  simp [adjacent]

theorem adjacent_comm {u v : Nat × Nat} : adjacent u v = true ↔ adjacent v u = true := by
  rw [adjacent_iff, adjacent_iff]
  omega

theorem adjacent_mate (o : Orientation) (c : Nat × Nat) : adjacent c (o.mate c) = true := by
  rw [adjacent_iff]
  cases o <;> simp [Orientation.mate]

theorem ne_of_adjacent {u v : Nat × Nat} (h : adjacent u v = true) : u ≠ v := by
  rintro rfl
  rw [adjacent_iff] at h
  omega

end Placement

/-! ### Row-major order -/

/-- The cell `c` is `(x, y)` or comes after it in row-major order. -/
def FromOn (x y : Nat) (c : Nat × Nat) : Prop := x < c.1 ∨ (c.1 = x ∧ y ≤ c.2)

namespace FromOn
variable {x y cols : Nat} {c : Nat × Nat}

theorem iff_next_row (hy : cols ≤ y) (hc : c.2 < cols) : FromOn x y c ↔ FromOn (x + 1) 0 c := by
  unfold FromOn
  omega

theorem iff_eq_or_next : FromOn x y c ↔ c = (x, y) ∨ FromOn x (y + 1) c := by
  rw [Prod.ext_iff]
  unfold FromOn
  dsimp only
  omega

theorem mate (o : Orientation) (x y : Nat) : FromOn x (y + 1) (o.mate (x, y)) := by
  cases o <;> simp [FromOn, Orientation.mate]

/-- The neighbour of a cell that comes after it is the one to its right or the one below it. -/
theorem eq_mate_of_adjacent (h : FromOn x y c) (hadj : Placement.adjacent (x, y) c = true) :
    ∃ o : Orientation, c = o.mate (x, y) := by
  rw [Placement.adjacent_iff] at hadj
  unfold FromOn at h
  obtain ⟨u, v⟩ := c
  dsimp only at h hadj
  rcases hadj with ⟨hu, hv⟩ | ⟨hv, hu⟩
  · exact ⟨.horizontal, Prod.ext_iff.2 ⟨by simp only [Orientation.mate]; omega,
      by simp only [Orientation.mate]; omega⟩⟩
  · exact ⟨.vertical, Prod.ext_iff.2 ⟨by simp only [Orientation.mate]; omega,
      by simp only [Orientation.mate]; omega⟩⟩

end FromOn

/-! ### Tilings -/

theorem Tile.Lies.index_lt {b : Board} {ds : List Domino} {t : Tile} (h : t.Lies b ds) :
    t.index < ds.length := by
  obtain ⟨d, -, -, hd, -⟩ := h.covers
  exact (List.getElem?_eq_some_iff.1 hd).1

theorem Tile.Lies.flip {b : Board} {ds : List Domino} {t : Tile} (h : t.Lies b ds) :
    t.flip.Lies b ds := by
  obtain ⟨hadj, d, m, n, hd, hm, hn, hcov⟩ := h
  rw [Domino.covers_comm] at hcov
  exact ⟨Placement.adjacent_comm.1 hadj, d, n, m, hd, hn, hm, hcov⟩

namespace Tiling
variable {b : Board} {ds : List Domino} {region region' : Nat × Nat → Prop} {t : Tile}
  {ts ts' : List Tile}

theorem congr (h : Tiling b ds region ts) (hr : ∀ c, region c ↔ region' c) :
    Tiling b ds region' ts :=
  ⟨h.lies, h.cells_nodup, h.index_nodup, fun c => (h.mem_cells_iff c).trans (hr c)⟩

theorem region_of_mem (h : Tiling b ds region ts) (ht : t ∈ ts) :
    region t.first ∧ region t.second := by
  constructor
  · exact (h.mem_cells_iff _).1 (List.mem_flatMap.2 ⟨t, ht, by simp⟩)
  · exact (h.mem_cells_iff _).1 (List.mem_flatMap.2 ⟨t, ht, by simp⟩)

theorem nil (h : ∀ c, ¬ region c) : Tiling b ds region [] :=
  ⟨by simp, by simp, by simp, fun c => by simpa using h c⟩

theorem perm (h : Tiling b ds region ts) (hp : ts.Perm ts') : Tiling b ds region ts' := by
  have hcells : (ts.flatMap Tile.cells).Perm (ts'.flatMap Tile.cells) := hp.flatMap_right _
  exact ⟨fun t ht => h.lies t (hp.mem_iff.2 ht), hcells.nodup_iff.1 h.cells_nodup,
    (hp.map _).nodup_iff.1 h.index_nodup, fun c => hcells.mem_iff.symm.trans (h.mem_cells_iff c)⟩

theorem flip_head (h : Tiling b ds region (t :: ts)) : Tiling b ds region (t.flip :: ts) := by
  have hcells : ((t :: ts).flatMap Tile.cells).Perm ((t.flip :: ts).flatMap Tile.cells) :=
    List.Perm.swap ..
  refine ⟨fun u hu => ?_, hcells.nodup_iff.1 h.cells_nodup, h.index_nodup,
    fun c => hcells.mem_iff.symm.trans (h.mem_cells_iff c)⟩
  rcases List.mem_cons.1 hu with rfl | hu
  · exact (h.lies t (List.mem_cons_self ..)).flip
  · exact h.lies u (List.mem_cons_of_mem _ hu)

/-- A tiling is a tile in the region together with a tiling of what it leaves open. -/
theorem cons_iff :
    Tiling b ds region (t :: ts) ↔
      t.Lies b ds ∧ region t.first ∧ region t.second ∧ (∀ u ∈ ts, u.index ≠ t.index) ∧
        Tiling b ds (fun c => region c ∧ c ≠ t.first ∧ c ≠ t.second) ts := by
  constructor
  · intro h
    have hcells := h.cells_nodup
    simp only [List.flatMap_cons, Tile.cells, List.cons_append, List.nil_append,
      List.nodup_cons, List.mem_cons, not_or] at hcells
    have hmem : ∀ c, c ∈ (t :: ts).flatMap Tile.cells ↔
        c = t.first ∨ c = t.second ∨ c ∈ ts.flatMap Tile.cells := fun c => by
      simp only [List.flatMap_cons, Tile.cells, List.cons_append, List.nil_append, List.mem_cons]
    have hidx := List.nodup_cons.1 (List.map_cons ▸ h.index_nodup)
    refine ⟨h.lies t (List.mem_cons_self ..), (h.mem_cells_iff _).1 ((hmem _).2 (.inl rfl)),
      (h.mem_cells_iff _).1 ((hmem _).2 (.inr (.inl rfl))), fun u hu e => ?_,
      fun u hu => h.lies u (List.mem_cons_of_mem _ hu), hcells.2.2, hidx.2, fun c => ?_⟩
    · exact hidx.1 (List.mem_map.2 ⟨u, hu, e⟩)
    · rw [← h.mem_cells_iff, hmem]
      constructor
      · intro hc
        refine ⟨.inr (.inr hc), ?_, ?_⟩
        · rintro rfl
          exact hcells.1.2 hc
        · rintro rfl
          exact hcells.2.1 hc
      · rintro ⟨hc, h1, h2⟩
        exact (hc.resolve_left h1).resolve_left h2
  · rintro ⟨hlies, hfirst, hsecond, hidx, h⟩
    have hne := Placement.ne_of_adjacent hlies.adjacent
    have hout : ∀ c ∈ ts.flatMap Tile.cells, c ≠ t.first ∧ c ≠ t.second :=
      fun c hc => ((h.mem_cells_iff c).1 hc).2
    refine ⟨fun u hu => ?_, ?_, ?_, fun c => ?_⟩
    · rcases List.mem_cons.1 hu with rfl | hu
      · exact hlies
      · exact h.lies u hu
    · simp only [List.flatMap_cons, Tile.cells, List.cons_append, List.nil_append, List.nodup_cons,
        List.mem_cons, not_or]
      exact ⟨⟨hne, fun hc => (hout _ hc).1 rfl⟩, fun hc => (hout _ hc).2 rfl, h.cells_nodup⟩
    · rw [List.map_cons, List.nodup_cons]
      refine ⟨fun hm => ?_, h.index_nodup⟩
      obtain ⟨u, hu, e⟩ := List.mem_map.1 hm
      exact hidx u hu e
    · simp only [List.flatMap_cons, Tile.cells, List.cons_append, List.nil_append, List.mem_cons,
        h.mem_cells_iff]
      constructor
      · rintro (rfl | rfl | hc)
        · exact hfirst
        · exact hsecond
        · exact hc.1
      · intro hc
        by_cases h1 : c = t.first
        · exact .inl h1
        by_cases h2 : c = t.second
        · exact .inr (.inl h2)
        exact .inr (.inr ⟨hc, h1, h2⟩)

/-- A tiling opened at the tile on a given cell, with that cell first. -/
theorem exists_cons {c : Nat × Nat} (h : Tiling b ds region ts) (hc : region c) :
    ∃ t ts', t.first = c ∧ Tiling b ds region (t :: ts') ∧
      (ts.Perm (t :: ts') ∨ ts.Perm (t.flip :: ts')) := by
  obtain ⟨t, ht, hct⟩ := List.mem_flatMap.1 ((h.mem_cells_iff c).2 hc)
  obtain ⟨l₁, l₂, rfl⟩ := List.append_of_mem ht
  have hperm : (l₁ ++ t :: l₂).Perm (t :: (l₁ ++ l₂)) := List.perm_middle
  have hcons := h.perm hperm
  rcases Tile.mem_cells.1 hct with rfl | rfl
  · exact ⟨t, _, rfl, hcons, .inl hperm⟩
  · exact ⟨t.flip, _, rfl, hcons.flip_head, .inr hperm⟩

end Tiling
end DominoTiling
