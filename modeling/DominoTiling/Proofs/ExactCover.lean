import DominoTiling.Proofs.Tiling

/-!
# Exact covers

A placement is an `ExactCover` of a board if every cell is covered and every domino that is used
lies on two adjacent cells with its pips and nowhere else. That is the same as a tiling of the whole
board with its tiles laid: `ExactCover.of_tiling` reads the cover off the tiles,
`ExactCover.exists_tiling` collects the tiles domino by domino.
-/

namespace DominoTiling

/-- Every cell is covered, and a domino that is used lies on two adjacent cells with its pips and on
no other cell. -/
structure ExactCover (b : Board) (ds : List Domino) (p : Placement) : Prop where
  shape : p.HasShape b
  full : ∀ c : Nat × Nat, c.1 < b.rows → c.2 < b.cols → ∃ i, p.at? c = some (some i)
  pair : ∀ c i, p.at? c = some (some i) →
    ∃ u v, (Tile.mk i u v).Lies b ds ∧ ∀ w, p.at? w = some (some i) ↔ w = u ∨ w = v

/-- The position of the tile stands on its two cells and on no other one. -/
def Tile.Shown (p : Placement) (t : Tile) : Prop :=
  ∀ c, p.at? c = some (some t.index) ↔ c ∈ t.cells

def BoardTiling (b : Board) (ds : List Domino) (ts : List Tile) : Prop :=
  Tiling b ds (fun c => c.1 < b.rows ∧ c.2 < b.cols) ts

theorem Placement.index_inj {p : Placement} {c : Nat × Nat} {i j : Nat}
    (hi : p.at? c = some (some i)) (hj : p.at? c = some (some j)) : i = j :=
  Option.some.inj (Option.some.inj (hi.symm.trans hj))

/-- Two tiles with a cell in common have the same position. -/
theorem Tile.Shown.index_eq {p : Placement} {t t' : Tile} {c : Nat × Nat} (h : t.Shown p)
    (h' : t'.Shown p) (hc : c ∈ t.cells) (hc' : c ∈ t'.cells) : t.index = t'.index :=
  Placement.index_inj ((h c).2 hc) ((h' c).2 hc')

namespace ExactCover
variable {b : Board} {ds : List Domino} {p : Placement} {ts : List Tile}

theorem lt_of_covered (hp : p.HasShape b) {c : Nat × Nat} {o : Option Nat} (hc : p.at? c = some o) :
    c.1 < b.rows ∧ c.2 < b.cols := by
  have hlt := Grid.lt_of_at? hc
  rwa [hp.1, hp.2] at hlt

theorem of_tiling (hp : p.HasShape b) (ht : BoardTiling b ds ts)
    (hon : ∀ t ∈ ts, p.at? t.first = some (some t.index) ∧ p.at? t.second = some (some t.index)) :
    ExactCover b ds p := by
  -- the tile on a cell of the board, with the position that the cell holds
  have htile : ∀ c, c.1 < b.rows ∧ c.2 < b.cols →
      ∃ t ∈ ts, c ∈ t.cells ∧ p.at? c = some (some t.index) := by
    intro c hc
    obtain ⟨t, hts, hct⟩ := List.mem_flatMap.1 ((ht.mem_cells_iff c).2 hc)
    refine ⟨t, hts, hct, ?_⟩
    rcases Tile.mem_cells.1 hct with rfl | rfl
    · exact (hon t hts).1
    · exact (hon t hts).2
  refine ⟨hp, fun c hx hy => ?_, fun c i hc => ?_⟩
  · obtain ⟨t, -, -, hc⟩ := htile c ⟨hx, hy⟩
    exact ⟨t.index, hc⟩
  · obtain ⟨t, hts, -, hct⟩ := htile c (lt_of_covered hp hc)
    obtain rfl := Placement.index_inj hct hc
    refine ⟨t.first, t.second, ht.lies t hts, fun w => ⟨fun hw => ?_, ?_⟩⟩
    · obtain ⟨t', hts', hcells, hwt⟩ := htile w (lt_of_covered hp hw)
      have hindex := Placement.index_inj hw hwt
      obtain rfl := List.inj_on_of_nodup_map ht.index_nodup hts hts' hindex
      exact Tile.mem_cells.1 hcells
    · rintro (rfl | rfl)
      · exact (hon t hts).1
      · exact (hon t hts).2

/-- Tiles that show the cover, one for every domino that is used, tile the board. -/
theorem boardTiling (h : ExactCover b ds p) (hts : ∀ t ∈ ts, t.Lies b ds ∧ t.Shown p)
    (hindex : (ts.map Tile.index).Nodup)
    (hall : ∀ c i, p.at? c = some (some i) → ∃ t ∈ ts, t.index = i) : BoardTiling b ds ts := by
  have hcells : (ts.flatMap Tile.cells).Nodup := by
    refine List.nodup_flatMap.2 ⟨fun t ht => ?_, ?_⟩
    · simp [Tile.cells, Placement.ne_of_adjacent (hts t ht).1.adjacent]
    · have hnodup := List.Nodup.of_map _ hindex
      refine hnodup.pairwise_of_forall_ne fun t ht t' ht' hne c hc hc' => hne ?_
      exact List.inj_on_of_nodup_map hindex ht ht' ((hts t ht).2.index_eq (hts t' ht').2 hc hc')
  refine ⟨fun t ht => (hts t ht).1, hcells, hindex, fun c => ⟨fun hc => ?_, fun hc => ?_⟩⟩
  · obtain ⟨t, ht, hct⟩ := List.mem_flatMap.1 hc
    exact lt_of_covered h.shape (((hts t ht).2 c).2 hct)
  · obtain ⟨i, hi⟩ := h.full c hc.1 hc.2
    obtain ⟨t, ht, rfl⟩ := hall c i hi
    exact List.mem_flatMap.2 ⟨t, ht, ((hts t ht).2 c).1 hi⟩

/-- The tile of each domino that is used. -/
theorem exists_tile (h : ExactCover b ds p) (i : Nat) :
    ∃ o : Option Tile, (∀ t ∈ o, t.index = i ∧ t.Lies b ds ∧ t.Shown p) ∧
      (o = none → ∀ c, p.at? c ≠ some (some i)) := by
  by_cases hused : ∃ c, p.at? c = some (some i)
  · obtain ⟨c, hc⟩ := hused
    obtain ⟨u, v, hlies, hcells⟩ := h.pair c i hc
    refine ⟨some ⟨i, u, v⟩, fun t ht => ?_, fun he => by cases he⟩
    obtain rfl := Option.some.inj ht
    exact ⟨rfl, hlies, fun w => by rw [hcells, Tile.mem_cells]⟩
  · exact ⟨none, fun t ht => (by cases ht), fun _ c hc => hused ⟨c, hc⟩⟩

theorem exists_tiling (h : ExactCover b ds p) :
    ∃ ts, BoardTiling b ds ts ∧ ∀ t ∈ ts, t.Shown p := by
  choose tile htile hnone using h.exists_tile
  have hmem : ∀ t ∈ (List.range ds.length).filterMap tile, tile t.index = some t := by
    intro t ht
    obtain ⟨i, -, hi⟩ := List.mem_filterMap.1 ht
    rw [(htile i t hi).1, hi]
  have hshown : ∀ t ∈ (List.range ds.length).filterMap tile, t.Lies b ds ∧ t.Shown p :=
    fun t ht => (htile t.index t (hmem t ht)).2
  have hnodup : ((List.range ds.length).filterMap tile).Nodup :=
    List.nodup_range.filterMap fun i j t hi hj => (htile i t hi).1.symm.trans (htile j t hj).1
  refine ⟨_, h.boardTiling hshown (hnodup.map_on fun t ht t' ht' hindex => ?_) fun c i hc => ?_,
    fun t ht => (hshown t ht).2⟩
  · exact Option.some.inj ((hmem t ht).symm.trans (hindex ▸ hmem t' ht'))
  · obtain ⟨t, ht⟩ : ∃ t, tile i = some t :=
      Option.ne_none_iff_exists'.1 fun hn => hnone i hn c hc
    obtain ⟨rfl, hlies, -⟩ := htile i t ht
    exact ⟨t, List.mem_filterMap.2 ⟨t.index, List.mem_range.2 hlies.index_lt, ht⟩, rfl⟩

end ExactCover
end DominoTiling
