import DominoTiling.Proofs.Solve

/-!
# Boards that are covered in part

A search may begin on a placement that holds dominoes of the list already, each on two adjacent cells
with its pips: a `PartialCover`. It steps over the cells they lie on, but begins with no domino in
use, so it lays each domino at most once beside those that lay there before. What it leaves behind
covers every cell, and it is an exact cover if and only if no domino has been laid that lay on the
placement before (`exactCover_iff_fresh`). One that fits on two open cells is laid a second time where
the search comes to it first.
-/

namespace DominoTiling
variable {b : Board} {ds : List Domino} {p q : Placement}

/-- A domino that is used lies on two adjacent cells with its pips and on no other cell. -/
structure PartialCover (b : Board) (ds : List Domino) (p : Placement) : Prop where
  shape : p.HasShape b
  pair : ∀ c i, p.at? c = some (some i) →
    ∃ u v, (Tile.mk i u v).Lies b ds ∧ ∀ w, p.at? w = some (some i) ↔ w = u ∨ w = v

theorem exactCover_iff : ExactCover b ds p ↔ PartialCover b ds p ∧
    ∀ c : Nat × Nat, c.1 < b.rows → c.2 < b.cols → ∃ i, p.at? c = some (some i) := by
  constructor
  · intro h
    exact ⟨⟨h.shape, h.pair⟩, h.full⟩
  · rintro ⟨h, hfull⟩
    exact ⟨h.shape, hfull, h.pair⟩

def Placement.Uses (p : Placement) (i : Nat) : Prop := ∃ c, p.at? c = some (some i)

namespace PartialCover

/-- No three cells hold the same domino. -/
theorem eq_or_eq (h : PartialCover b ds p) {i : Nat} {c c' c'' : Nat × Nat}
    (hc : p.at? c = some (some i)) (hc' : p.at? c' = some (some i))
    (hc'' : p.at? c'' = some (some i)) (hne : c ≠ c') : c'' = c ∨ c'' = c' := by
  obtain ⟨u, v, -, hcells⟩ := h.pair c i hc
  rcases (hcells c).1 hc with rfl | rfl
  · rcases (hcells c').1 hc' with rfl | rfl
    · exact absurd rfl hne
    · exact (hcells c'').1 hc''
  · rcases (hcells c').1 hc' with rfl | rfl
    · exact ((hcells c'').1 hc'').symm
    · exact absurd rfl hne

end PartialCover

namespace Search
variable {x y : Nat} {ts : List Tile}

theorem openFrom_start {c : Nat × Nat} : p.OpenFrom 0 0 c ↔ p.at? c = some none := by
  refine and_iff_left ?_
  unfold FromOn
  omega

/-- A position stands where it stood before and where its tile has been laid. -/
theorem Laid.at?_iff (h : Laid ts p q) (hts : Tiling b ds (p.OpenFrom x y) ts) {c : Nat × Nat}
    {i : Nat} :
    q.at? c = some (some i) ↔ p.at? c = some (some i) ∨ ∃ t ∈ ts, t.index = i ∧ c ∈ t.cells := by
  constructor
  · intro hc
    by_cases hmem : c ∈ ts.flatMap Tile.cells
    · obtain ⟨t, ht, hct⟩ := List.mem_flatMap.1 hmem
      exact .inr ⟨t, ht, Placement.index_inj (h.at?_of_mem_cells t ht c hct) hc, hct⟩
    · rw [h.off c hmem] at hc
      exact .inl hc
  · rintro (hc | ⟨t, ht, rfl, hct⟩)
    · have hmem : c ∉ ts.flatMap Tile.cells := by
        intro hmem
        rw [((hts.mem_cells_iff c).1 hmem).1] at hc
        cases hc
      rw [h.off c hmem]
      exact hc
    · exact h.at?_of_mem_cells t ht c hct

/-- Tiles laid beside a partial cover make one again exactly if their dominoes did not lie there. -/
theorem Laid.partialCover_iff (h : Laid ts p q) (hts : Tiling b ds (p.OpenFrom x y) ts)
    (hp : PartialCover b ds p) (hq : q.HasShape b) :
    PartialCover b ds q ↔ ∀ t ∈ ts, ¬ p.Uses t.index := by
  constructor
  · rintro hcover t ht ⟨c, hc⟩
    -- The two cells where the domino lay and the first cell of its tile are three.
    obtain ⟨u, v, hlies, hcells⟩ := hp.pair c _ hc
    have hu := (hcells u).2 (.inl rfl)
    have hv := (hcells v).2 (.inr rfl)
    have hopen : p.at? t.first = some none := (hts.region_of_mem ht).1.1
    have hfirst : t.first = u ∨ t.first = v :=
      hcover.eq_or_eq ((h.at?_iff hts).2 (.inl hu)) ((h.at?_iff hts).2 (.inl hv)) (h.on t ht).1
        (Placement.ne_of_adjacent hlies.adjacent)
    rcases hfirst with heq | heq
    · rw [heq, hu] at hopen
      cases hopen
    · rw [heq, hv] at hopen
      cases hopen
  · intro hfresh
    refine ⟨hq, ?_⟩
    intro c i hc
    rcases (h.at?_iff hts).1 hc with hold | ⟨t, ht, rfl, -⟩
    · obtain ⟨u, v, hlies, hcells⟩ := hp.pair c i hold
      refine ⟨u, v, hlies, ?_⟩
      intro w
      rw [h.at?_iff hts, hcells]
      refine or_iff_left ?_
      rintro ⟨t, ht, rfl, -⟩
      exact hfresh t ht ⟨c, hold⟩
    · refine ⟨t.first, t.second, hts.lies t ht, ?_⟩
      intro w
      rw [h.at?_iff hts, ← Tile.mem_cells]
      constructor
      · rintro (hw | ⟨t', ht', hindex, hwt⟩)
        · exact absurd ⟨w, hw⟩ (hfresh t ht)
        · rwa [List.inj_on_of_nodup_map hts.index_nodup ht' ht hindex] at hwt
      · intro hw
        exact .inr ⟨t, ht, rfl, hw⟩

theorem Laid.full (h : Laid ts p q) (hts : Tiling b ds (p.OpenFrom 0 0) ts) (hp : p.HasShape b) :
    ∀ c : Nat × Nat, c.1 < b.rows → c.2 < b.cols → ∃ i, q.at? c = some (some i) := by
  intro c hx hy
  obtain ⟨o, ho⟩ : ∃ o, p.at? c = some o :=
    Grid.exists_at? ⟨Nat.lt_of_lt_of_eq hx hp.1.symm, Nat.lt_of_lt_of_eq hy hp.2.symm⟩
  cases o with
  | none => exact h.exists_of_mem ((hts.mem_cells_iff c).2 (openFrom_start.2 ho))
  | some i => exact ⟨i, (h.at?_iff hts).2 (.inl ho)⟩

/-- What a search with success leaves behind a partial cover: the cells that were open are tiled, each
domino laid at most once, and nothing else changes. All cells are then covered exactly unless a
domino has been laid that lay there before. That does not happen where none of these fits on two open
cells. -/
theorem exactCover_iff_fresh {v : Verdict} (hp : PartialCover b ds p)
    (h : solve b p ds = .ok v) (hv : v.solved = true) :
    ∃ ts, Tiling b ds (fun c => p.at? c = some none) ts ∧
      (∀ c i, v.placement.at? c = some (some i) ↔
        p.at? c = some (some i) ∨ ∃ t ∈ ts, t.index = i ∧ c ∈ t.cells) ∧
      (ExactCover b ds v.placement ↔ ∀ t ∈ ts, ¬ p.Uses t.index) ∧
      ((∀ t : Tile, t.Lies b ds → p.at? t.first = some none → p.at? t.second = some none →
        ¬ p.Uses t.index) → ExactCover b ds v.placement) := by
  obtain ⟨hshape, ts, hts, hlaid⟩ := exists_laid h hv
  have htiling : Tiling b ds (fun c => p.at? c = some none) ts := hts.congr fun _ => openFrom_start
  have hiff : ExactCover b ds v.placement ↔ ∀ t ∈ ts, ¬ p.Uses t.index := by
    rw [exactCover_iff, hlaid.partialCover_iff hts hp hshape]
    exact and_iff_left (hlaid.full hts hp.shape)
  refine ⟨ts, htiling, fun c i => hlaid.at?_iff hts, hiff, ?_⟩
  intro hfit
  refine hiff.2 ?_
  intro t ht
  obtain ⟨hfirst, hsecond⟩ := htiling.region_of_mem ht
  exact hfit t (htiling.lies t ht) hfirst hsecond

/-- In a row of four cells with the domino at position 0 on the first two. -/
theorem at?_row {o : Option Nat} {c : Nat × Nat} {i : Nat} :
    Grid.at? ⟨1, 4, #[some 0, some 0, o, o], rfl, (by decide : 4 < 2 ^ 64)⟩ c = some (some i) ↔
      i = 0 ∧ (c = (0, 0) ∨ c = (0, 1)) ∨ o = some i ∧ (c = (0, 2) ∨ c = (0, 3)) := by
  obtain ⟨x, y⟩ := c
  constructor
  · intro hc
    obtain ⟨hx, hy⟩ := Grid.lt_of_at? hc
    obtain rfl : x = 0 := Nat.lt_one_iff.1 hx
    rcases (show y = 0 ∨ y = 1 ∨ y = 2 ∨ y = 3 by dsimp only at hy; omega) with
      rfl | rfl | rfl | rfl
    all_goals simp_all [Grid.at?]
  · rintro (⟨rfl, hc | hc⟩ | ⟨rfl, hc | hc⟩)
    all_goals
      rw [hc]
      rfl

theorem partialCover_row (m n : Nat) (ds : List Domino) :
    PartialCover ⟨1, 4, #[0, 0, m, n], rfl, (by decide : 4 < 2 ^ 64)⟩ (⟨0, 0⟩ :: ds)
      ⟨1, 4, #[some 0, some 0, none, none], rfl, (by decide : 4 < 2 ^ 64)⟩ := by
  refine ⟨⟨rfl, rfl⟩, ?_⟩
  intro c i hc
  rcases at?_row.1 hc with ⟨rfl, -⟩ | ⟨hnone, -⟩
  · refine ⟨(0, 0), (0, 1), ⟨rfl, ⟨0, 0⟩, 0, 0, rfl, rfl, rfl, rfl⟩, ?_⟩
    intro w
    rw [at?_row]
    simp
  · cases hnone

/-- The second domino is laid beside the first one. -/
theorem exactCover_iff_fresh_row :
    ExactCover ⟨1, 4, #[0, 0, 0, 1], rfl, by decide⟩ [⟨0, 0⟩, ⟨0, 1⟩]
      ⟨1, 4, #[some 0, some 0, some 1, some 1], rfl, by decide⟩ := by
  have h : solve ⟨1, 4, #[0, 0, 0, 1], rfl, by decide⟩
      ⟨1, 4, #[some 0, some 0, none, none], rfl, by decide⟩ [⟨0, 0⟩, ⟨0, 1⟩] =
      .ok ⟨true, ⟨1, 4, #[some 0, some 0, some 1, some 1], rfl, by decide⟩, 2, 6, 0⟩ := by
    cbv
  obtain ⟨ts, hts, hcells, hiff, -⟩ := exactCover_iff_fresh (partialCover_row 0 1 [⟨0, 1⟩]) h rfl
  refine hiff.2 ?_
  rintro t ht ⟨c, hc⟩
  rcases at?_row.1 hc with ⟨hindex, -⟩ | ⟨hnone, -⟩
  · have hopen : Grid.at? ⟨1, 4, #[some 0, some 0, none, none], rfl, by decide⟩ t.first =
        some none := (hts.mem_cells_iff _).1 (List.mem_flatMap.2 ⟨t, ht, by simp⟩)
    have hlaid := (hcells t.first t.index).2 (.inr ⟨t, ht, rfl, by simp⟩)
    rcases at?_row.1 hlaid with hfirst | ⟨hone, -⟩
    · rw [at?_row.2 (.inl hfirst)] at hopen
      cases hopen
    · rw [hindex] at hone
      cases hone
  · cases hnone

/-- The only domino is laid a second time beside the two cells that it covers already. -/
theorem not_partialCover_of_solved :
    ∃ v, PartialCover ⟨1, 4, #[0, 0, 0, 0], rfl, by decide⟩ [⟨0, 0⟩]
        ⟨1, 4, #[some 0, some 0, none, none], rfl, by decide⟩ ∧
      solve ⟨1, 4, #[0, 0, 0, 0], rfl, by decide⟩
        ⟨1, 4, #[some 0, some 0, none, none], rfl, by decide⟩ [⟨0, 0⟩] = .ok v ∧
      v.solved = true ∧
      ¬ PartialCover ⟨1, 4, #[0, 0, 0, 0], rfl, by decide⟩ [⟨0, 0⟩] v.placement := by
  have h : solve ⟨1, 4, #[0, 0, 0, 0], rfl, by decide⟩
      ⟨1, 4, #[some 0, some 0, none, none], rfl, by decide⟩ [⟨0, 0⟩] =
      .ok ⟨true, ⟨1, 4, #[some 0, some 0, some 0, some 0], rfl, by decide⟩, 1, 6, 0⟩ := by
    cbv
  refine ⟨_, partialCover_row 0 0 [], h, rfl, ?_⟩
  intro hcover
  have hthird : ((0, 2) : Nat × Nat) = (0, 0) ∨ ((0, 2) : Nat × Nat) = (0, 1) :=
    hcover.eq_or_eq rfl rfl rfl (by decide)
  revert hthird
  decide

end Search
end DominoTiling
