import DominoTiling.Proofs.CompleteSet
import DominoTiling.Proofs.Returns

/-!
# Boards in pairs of cells

A `Pairing` splits a board into pairs of neighbouring cells whose pips, taken without order, are
different from pair to pair. It speaks of neither dominoes nor positions. Any two pips of a board
are the sides of one domino of the complete set and of no other one, so pairings are the tilings of
the board by that set (`exists_boardTiling_iff`), and solving a board decides whether it has a
pairing.
-/

namespace DominoTiling

/-- Two cells. -/
abbrev Pair := (Nat × Nat) × (Nat × Nat)

theorem foldl_max_le_iff {l : List Nat} {a n : Nat} :
    l.foldl max a ≤ n ↔ a ≤ n ∧ ∀ m ∈ l, m ≤ n := by
  induction l generalizing a with
  | nil => simp
  | cons m l ih =>
    rw [List.foldl_cons, ih, Nat.max_le, and_assoc, List.forall_mem_cons]

namespace Board
variable {b : Board}

/-- The pips on two cells, without an order. -/
def pipsOn (b : Board) (p : Pair) : Sym2 (Option Nat) := s(b.at? p.1, b.at? p.2)

theorem maxPips_le_iff_cells {n : Nat} : b.maxPips ≤ n ↔ ∀ m ∈ b.cells.toList, m ≤ n := by
  rw [maxPips, ← Array.foldl_toList, foldl_max_le_iff]
  exact and_iff_right (Nat.zero_le n)

theorem maxPips_le_iff {n : Nat} : b.maxPips ≤ n ↔ ∀ c m, b.at? c = some m → m ≤ n := by
  rw [maxPips_le_iff_cells]
  constructor
  · intro h c m hm
    obtain ⟨hx, hy⟩ := Grid.lt_of_at? hm
    rw [Grid.at?_of_lt hx hy] at hm
    exact h m (Array.mem_toList_iff.2 (Array.mem_of_getElem? hm))
  · intro h m hm
    obtain ⟨k, hk, rfl⟩ := Array.getElem_of_mem (Array.mem_toList_iff.1 hm)
    exact h _ _ ((Grid.at?_div_mod hk).trans (Array.getElem?_eq_getElem hk))

end Board

/-- All cells of the board, each in one pair with a neighbour, no two pairs with the same pips. -/
structure Pairing (b : Board) (ps : List Pair) : Prop where
  adjacent : ∀ p ∈ ps, Placement.adjacent p.1 p.2 = true
  cells_nodup : (ps.flatMap fun p => [p.1, p.2]).Nodup
  mem_cells_iff : ∀ c, (c ∈ ps.flatMap fun p => [p.1, p.2]) ↔ c.1 < b.rows ∧ c.2 < b.cols
  pips_nodup : (ps.map b.pipsOn).Nodup

def Tile.pair (t : Tile) : Pair := (t.first, t.second)

theorem Tile.Lies.pipsOn_eq {b : Board} {ds : List Domino} {t : Tile} (h : t.Lies b ds) :
    ∃ d, ds[t.index]? = some d ∧ b.pipsOn t.pair = d.sides.map some := by
  obtain ⟨d, m, n, hd, hm, hn, hcov⟩ := h.covers
  refine ⟨d, hd, ?_⟩
  rw [Board.pipsOn, Tile.pair, hm, hn, Domino.covers_iff_sides.1 hcov, Sym2.map_mk]

theorem flatMap_pair (ts : List Tile) :
    ((ts.map Tile.pair).flatMap fun p => [p.1, p.2]) = ts.flatMap Tile.cells := by
  rw [List.flatMap_map]
  rfl

section
variable {b : Board} {n : Nat}

theorem BoardTiling.pairing {ds : List Domino} {ts : List Tile} (h : BoardTiling b ds ts)
    (hds : (ds.map Domino.sides).Nodup) : Pairing b (ts.map Tile.pair) := by
  refine ⟨fun p hp => ?_, ?_, ?_, ?_⟩
  · obtain ⟨t, ht, rfl⟩ := List.mem_map.1 hp
    exact (h.lies t ht).adjacent
  · rw [flatMap_pair]
    exact h.cells_nodup
  · rw [flatMap_pair]
    exact h.mem_cells_iff
  · rw [List.map_map]
    refine (List.Nodup.of_map _ h.index_nodup).map_on fun t ht u hu hpips => ?_
    obtain ⟨d, hd, htd⟩ := (h.lies t ht).pipsOn_eq
    obtain ⟨e, he, hue⟩ := (h.lies u hu).pipsOn_eq
    have hsides : d.sides = e.sides :=
      Sym2.map.injective (Option.some_injective _) (htd.symm.trans (hpips.trans hue))
    have hindex : (ds.map Domino.sides)[t.index]? = (ds.map Domino.sides)[u.index]? := by
      rw [List.getElem?_map, List.getElem?_map, hd, he, Option.map_some, Option.map_some, hsides]
    have hlt := (List.getElem?_eq_some_iff.1 hd).1
    exact List.inj_on_of_nodup_map h.index_nodup ht hu
      ((List.getElem?_inj (by rwa [List.length_map]) hds).1 hindex)

/-- Each pair of neighbours has a tile of the complete set. -/
theorem exists_tiles (hn : b.maxPips ≤ n) {ps : List Pair}
    (hps : ∀ p ∈ ps, Placement.adjacent p.1 p.2 = true ∧ (p.1.1 < b.rows ∧ p.1.2 < b.cols) ∧
      p.2.1 < b.rows ∧ p.2.2 < b.cols) :
    ∃ ts : List Tile, ts.map Tile.pair = ps ∧ ∀ t ∈ ts, t.Lies b (Domino.upTo n) := by
  induction ps with
  | nil => exact ⟨[], rfl, by simp⟩
  | cons p ps ih =>
    obtain ⟨ts, hts, hlies⟩ := ih fun q hq => hps q (List.mem_cons_of_mem _ hq)
    obtain ⟨hadj, hfirst, hsecond⟩ := hps p (List.mem_cons_self ..)
    obtain ⟨m, hm⟩ := Grid.exists_at? (g := b) hfirst
    obtain ⟨k, hk⟩ := Grid.exists_at? (g := b) hsecond
    obtain ⟨d, hd, hcov⟩ := Domino.exists_covers (Board.maxPips_le_iff.1 hn _ _ hm)
      (Board.maxPips_le_iff.1 hn _ _ hk)
    obtain ⟨i, hi⟩ := List.getElem?_of_mem hd
    refine ⟨⟨i, p.1, p.2⟩ :: ts, by rw [List.map_cons, hts]; rfl, fun t ht => ?_⟩
    rcases List.mem_cons.1 ht with rfl | ht
    · exact ⟨hadj, d, m, k, hi, hm, hk, hcov⟩
    · exact hlies t ht

theorem Pairing.exists_boardTiling (hn : b.maxPips ≤ n) {ps : List Pair} (h : Pairing b ps) :
    ∃ ts, BoardTiling b (Domino.upTo n) ts := by
  have hon : ∀ p ∈ ps, ∀ c ∈ [p.1, p.2], c.1 < b.rows ∧ c.2 < b.cols := fun p hp c hc =>
    (h.mem_cells_iff c).1 (List.mem_flatMap.2 ⟨p, hp, hc⟩)
  obtain ⟨ts, rfl, hlies⟩ := exists_tiles hn fun p hp =>
    ⟨h.adjacent p hp, hon p hp p.1 (by simp), hon p hp p.2 (by simp)⟩
  have hpips := h.pips_nodup
  have hcells := h.cells_nodup
  have hmem := h.mem_cells_iff
  rw [List.map_map] at hpips
  rw [flatMap_pair] at hcells hmem
  refine ⟨ts, hlies, hcells, (List.Nodup.of_map _ hpips).map_on fun t ht u hu hindex => ?_, hmem⟩
  -- tiles with one position have the pips of one domino
  obtain ⟨d, hd, htd⟩ := (hlies t ht).pipsOn_eq
  obtain ⟨e, he, hue⟩ := (hlies u hu).pipsOn_eq
  rw [hindex, he] at hd
  obtain rfl := Option.some.inj hd
  exact List.inj_on_of_nodup_map hpips ht hu (htd.trans hue.symm)

theorem exists_boardTiling_iff (hn : b.maxPips ≤ n) :
    (∃ ts, BoardTiling b (Domino.upTo n) ts) ↔ ∃ ps, Pairing b ps :=
  ⟨fun ⟨_, h⟩ => ⟨_, h.pairing (Domino.nodup_sides_upTo n)⟩, fun ⟨_, h⟩ => h.exists_boardTiling hn⟩

end

/-! ### Solving with the complete set -/

namespace Search
variable {b : Board} {p : Placement}

/-- A board that can be allocated is solved on an empty placement, with the complete set. -/
theorem solveBoard_eq (hset : Domino.completeSet b.maxPips = .ok (Domino.upTo b.maxPips))
    (hp : Placement.forBoard b = .ok p) :
    solveBoard b = solve b p (Domino.upTo b.maxPips) := by
  rw [solveBoard, hset, hp]
  rfl

theorem solveBoard_of_set_error {f : Fault} (hset : Domino.completeSet b.maxPips = .error f) :
    solveBoard b = .error (.fault f) := by
  rw [solveBoard, hset]
  rfl

theorem solveBoard_of_placement_error {f : Fault}
    (hset : Domino.completeSet b.maxPips = .ok (Domino.upTo b.maxPips))
    (hp : Placement.forBoard b = .error f) : solveBoard b = .error (.fault f) := by
  rw [solveBoard, hset, hp]
  rfl

theorem solve_of_solveBoard {v : Verdict} (h : solveBoard b = .ok v) :
    ∃ p, Placement.forBoard b = .ok p ∧ solve b p (Domino.upTo b.maxPips) = .ok v := by
  obtain ⟨ds, hds, h⟩ := bind_eq_ok_iff.1 h
  obtain ⟨p, hp, h⟩ := bind_eq_ok_iff.1 h
  obtain rfl := Domino.eq_upTo_of_completeSet (liftM_eq_ok_iff.1 hds)
  exact ⟨p, liftM_eq_ok_iff.1 hp, h⟩

theorem solve_ne_error {ds : List Domino} {e : PuzzleError} (hp : p.HasShape b) :
    solve b p ds ≠ .error (.error e) := by
  intro h
  have hshape := Placement.checkShape_eq_ok_iff.2 hp
  unfold solve solveFrom at h
  split at h
  · cases h
  · rename_i e' q hsolve
    rw [(solveInPlace_eq_error_iff.1 hsolve).1] at hshape
    cases hshape
  · cases h

theorem solveBoard_ne_error {e : PuzzleError} : solveBoard b ≠ .error (.error e) := by
  intro h
  cases hset : Domino.completeSet b.maxPips with
  | error f =>
    rw [solveBoard_of_set_error hset] at h
    cases h
  | ok ds =>
    obtain rfl := Domino.eq_upTo_of_completeSet hset
    cases hp : Placement.forBoard b with
    | error f =>
      rw [solveBoard_of_placement_error hset hp] at h
      cases h
    | ok p =>
      rw [solveBoard_eq hset hp] at h
      exact solve_ne_error (Placement.at?_forBoard hp).1 h

/-- Solving a board decides whether it has a pairing. It never refuses a board, and it returns
where set and placement can be allocated and a word can count the steps. -/
theorem solveBoard_decides (hcols : 1 ≤ b.cols) (hpips : b.maxPips < 2 ^ 32 - 1) :
    (∀ e, solveBoard b ≠ .error (.error e)) ∧
    (∀ v, solveBoard b = .ok v →
      ((∃ p, v.cover? = some p) ↔ ∃ ps, Pairing b ps) ∧
        (v.cover? = none ↔ ¬ ∃ ps, Pairing b ps)) ∧
    (∀ p, 8 * (Domino.upTo b.maxPips).length < 2 ^ 63 → Placement.forBoard b = .ok p →
      StepsFit b (Domino.upTo b.maxPips) p 0 0 → ∃ v, solveBoard b = .ok v) := by
  refine ⟨fun e => solveBoard_ne_error, fun v h => ?_, fun p halloc hp hsteps => ?_⟩
  · obtain ⟨p, hp, hsolve⟩ := solve_of_solveBoard h
    have hsolved := solved_iff_boardTiling hp hsolve
    rw [exists_boardTiling_iff (Nat.le_refl _)] at hsolved
    rw [← hsolved, Verdict.cover?]
    cases v.solved <;> simp
  · rw [solveBoard_eq (Domino.completeSet_of_lt hpips halloc) hp]
    exact exists_solveFrom hcols (Placement.at?_forBoard hp).1 (.inl (by decide)) hsteps

theorem solveBoard_decides_two_rows :
    (∃ ps, Pairing ⟨2, 4, #[0, 0, 0, 1, 1, 1, 0, 2], rfl, by decide⟩ ps) ∧
      ¬ ∃ ps, Pairing ⟨2, 2, #[2, 2, 2, 2], rfl, by decide⟩ ps := by
  have hsome : solveBoard ⟨2, 4, #[0, 0, 0, 1, 1, 1, 0, 2], rfl, by decide⟩ =
      .ok ⟨true, ⟨2, 4, #[some 0, some 0, some 1, some 1, some 3, some 3, some 2, some 2], rfl,
        by decide⟩, 6, 11, 0⟩ := by
    cbv
  have hnone : solveBoard ⟨2, 2, #[2, 2, 2, 2], rfl, by decide⟩ =
      .ok ⟨false, ⟨2, 2, #[none, none, none, none], rfl, by decide⟩, 6, 5, 2⟩ := by
    cbv
  exact ⟨((solveBoard_decides (by decide) (by decide)).2.1 _ hsome).1.1 ⟨_, rfl⟩,
    ((solveBoard_decides (by decide) (by decide)).2.1 _ hnone).2.1 rfl⟩

end Search
end DominoTiling
