import DominoTiling.Proofs.Restore

/-!
# What is left to cover

A `Completion` of a search state is a tiling of the cells that are empty from `(x, y)` on by
dominoes not in use. The search changes what is left to cover in four ways, and each says exactly
what it does to the completions: at the end of a row and at a covered cell they stay the same
(`rowEnd_iff`, `covered_iff`), below the last row there is nothing to tile (`iff_eq_nil`), and laying a
candidate leaves the completions that have its tile, without that tile (`place_iff`).

A completion has a tile on the first empty cell, and the other cell of that tile comes later in
row-major order: it is to the right or below (`exists_candidate`). So it is the tile of a candidate,
and no other choice has to be tried there.
-/

namespace DominoTiling

/-- The cell `c` is empty, and it is `(x, y)` or comes after it. -/
def Placement.OpenFrom (p : Placement) (x y : Nat) (c : Nat × Nat) : Prop :=
  p.at? c = some none ∧ FromOn x y c

namespace Search

/-- A tiling of the cells empty from `(x, y)` on, by dominoes not in use. -/
structure Completion (b : Board) (ds : List Domino) (s : Progress) (x y : Nat) (ts : List Tile) :
    Prop where
  tiling : Tiling b ds (s.placement.OpenFrom x y) ts
  unused : ∀ t ∈ ts, s.inUse.contains t.index = .ok false

namespace Completion
variable {b : Board} {ds : List Domino} {c : Candidate} {x y : Nat} {s s' s₁ : Progress}
  {ts : List Tile}

theorem congr_open (h : Completion b ds s x y ts) {x' y' : Nat} (hs : s'.inUse = s.inUse)
    (hopen : ∀ c, s.placement.OpenFrom x y c ↔ s'.placement.OpenFrom x' y' c) :
    Completion b ds s' x' y' ts :=
  ⟨h.tiling.congr hopen, hs ▸ h.unused⟩

theorem alike_iff (hs : s'.Alike s) : Completion b ds s' x y ts ↔ Completion b ds s x y ts :=
  ⟨fun h => h.congr_open hs.inUse.symm fun c => by rw [hs.placement],
    fun h => h.congr_open hs.inUse fun c => by rw [hs.placement]⟩

theorem rowEnd_iff (hp : s.placement.HasShape b) (hy : b.cols ≤ y) :
    Completion b ds s.enter (x + 1) 0 ts ↔ Completion b ds s x y ts := by
  have hopen : ∀ c, s.placement.OpenFrom x y c ↔ s.placement.OpenFrom (x + 1) 0 c := fun c =>
    and_congr_right fun hc => FromOn.iff_next_row hy (hp.2 ▸ (Grid.lt_of_at? hc).2)
  exact ⟨fun h => h.congr_open rfl fun c => (hopen c).symm, fun h => h.congr_open rfl hopen⟩

theorem covered_iff {i : Nat} (hset : s.placement.at? (x, y) = some (some i)) :
    Completion b ds s.enter x (y + 1) ts ↔ Completion b ds s x y ts := by
  have hopen : ∀ c, s.placement.OpenFrom x y c ↔ s.placement.OpenFrom x (y + 1) c := fun c => by
    refine and_congr_right fun hc => FromOn.iff_eq_or_next.trans (or_iff_right ?_)
    rintro rfl
    rw [hset] at hc
    cases hc
  exact ⟨fun h => h.congr_open rfl fun c => (hopen c).symm, fun h => h.congr_open rfl hopen⟩

theorem not_openFrom_of_le (hp : s.placement.HasShape b) (hx : b.rows ≤ x) (u : Nat × Nat) :
    ¬ s.placement.OpenFrom x y u := by
  rintro ⟨hu, hfrom⟩
  have hlt := (Grid.lt_of_at? hu).1
  rw [hp.1] at hlt
  unfold FromOn at hfrom
  omega

/-- Below the last row nothing is left, and only no tiles complete that. -/
theorem iff_eq_nil (hp : s.placement.HasShape b) (hx : b.rows ≤ x) :
    Completion b ds s x y ts ↔ ts = [] := by
  constructor
  · intro h
    cases ts with
    | nil => rfl
    | cons t ts => exact absurd (Tiling.cons_iff.1 h.tiling).2.1 (not_openFrom_of_le hp hx _)
  · rintro rfl
    exact ⟨Tiling.nil (not_openFrom_of_le hp hx), by simp⟩

/-- A candidate is admitted where a completion has its tile. -/
theorem admits (hp : s.placement.HasShape b) (hc : c ∈ candidates ds)
    (h : Completion b ds s x y (c.tile x y :: ts)) : s.admits b c x y = .ok true := by
  obtain ⟨⟨-, d, m, n, hd, hm, hn, hcov⟩, hfirst, hsecond, -, -⟩ := Tiling.cons_iff.1 h.tiling
  obtain rfl : c.domino = d := Option.some.inj ((mem_candidates_iff.1 hc).symm.trans hd)
  exact Progress.admits_eq_true_iff.2 ⟨h.unused _ (List.mem_cons_self ..),
    (Domino.fits_iff hp).2 ⟨hfirst.1, hsecond.1, m, n, hm, hn, hcov⟩⟩

theorem lies_tile (hp : s.placement.HasShape b) (hc : c ∈ candidates ds)
    (hadm : s.admits b c x y = .ok true) :
    (c.tile x y).Lies b ds ∧ s.placement.OpenFrom x y (x, y) ∧
      s.placement.OpenFrom x y (c.orientation.mate (x, y)) := by
  obtain ⟨hfirst, hsecond, m, n, hm, hn, hcov⟩ :=
    (Domino.fits_iff hp).1 (Progress.admits_eq_true_iff.1 hadm).2
  exact ⟨⟨Placement.adjacent_mate _ _, c.domino, m, n, mem_candidates_iff.1 hc, hm, hn, hcov⟩,
    ⟨hfirst, FromOn.iff_eq_or_next.2 (.inl rfl)⟩,
    ⟨hsecond, FromOn.iff_eq_or_next.2 (.inr (FromOn.mate _ _ _))⟩⟩

/-- Laying a candidate takes its two cells from those that are open. -/
theorem openFrom_place (hp : s.placement.HasShape b) (hadm : s.admits b c x y = .ok true)
    (hlay : s.place c x y = .ok s₁) (u : Nat × Nat) :
    s₁.placement.OpenFrom x (y + 1) u ↔
      s.placement.OpenFrom x y u ∧ u ≠ (x, y) ∧ u ≠ c.orientation.mate (x, y) := by
  unfold Placement.OpenFrom
  rw [Progress.at?_place hp hadm hlay, FromOn.iff_eq_or_next (x := x) (y := y)]
  by_cases hmate : u = c.orientation.mate (x, y)
  · simp [hmate]
  by_cases hcell : u = (x, y)
  · simp [hcell, Ne.symm (c.orientation.mate_ne (x, y))]
  · simp [hmate, hcell]

/-- The completions after laying a candidate are those before it with its tile. -/
theorem place_iff (hp : s.placement.HasShape b) (hc : c ∈ candidates ds)
    (hadm : s.admits b c x y = .ok true) (hlay : s.place c x y = .ok s₁) :
    Completion b ds s₁ x (y + 1) ts ↔ Completion b ds s x y (c.tile x y :: ts) := by
  obtain ⟨hlies, hfirst, hsecond⟩ := lies_tile hp hc hadm
  have hopen := openFrom_place hp hadm hlay
  have hfree := (Progress.admits_eq_true_iff.1 hadm).1
  constructor
  · rintro ⟨htiling, hunused⟩
    have hidx : ∀ u ∈ ts, u.index ≠ c.index ∧ s.inUse.contains u.index = .ok false := by
      intro u hu
      have hcontains := hunused u hu
      rw [Progress.contains_place hlay] at hcontains
      split at hcontains
      · cases hcontains
      · rename_i hne
        exact ⟨hne, hcontains⟩
    refine ⟨Tiling.cons_iff.2 ⟨hlies, hfirst, hsecond, fun u hu => (hidx u hu).1,
      htiling.congr hopen⟩, fun u hu => ?_⟩
    rcases List.mem_cons.1 hu with rfl | hu
    · exact hfree
    · exact (hidx u hu).2
  · rintro ⟨htiling, hunused⟩
    obtain ⟨-, -, -, hidx, htiling⟩ := Tiling.cons_iff.1 htiling
    refine ⟨htiling.congr fun u => (hopen u).symm, fun u hu => ?_⟩
    rw [Progress.contains_place hlay, if_neg (show u.index ≠ c.index from hidx u hu)]
    exact hunused u (List.mem_cons_of_mem _ hu)

/-- At an empty cell every completion has, up to order, the tile of a candidate for that cell. -/
theorem exists_candidate (hempty : s.placement.at? (x, y) = some none)
    (h : Completion b ds s x y ts) :
    ∃ c ∈ candidates ds, ∃ ts', Completion b ds s x y (c.tile x y :: ts') ∧
      (ts.Perm (c.tile x y :: ts') ∨ ts.Perm ((c.tile x y).flip :: ts')) := by
  obtain ⟨⟨i, first, second⟩, ts', rfl, htiling, hperm⟩ :=
    h.tiling.exists_cons (c := (x, y)) ⟨hempty, FromOn.iff_eq_or_next.2 (.inl rfl)⟩
  obtain ⟨⟨hadj, d, m, n, hd, -⟩, -, hsecond, -, -⟩ := Tiling.cons_iff.1 htiling
  obtain ⟨o, rfl⟩ := hsecond.2.eq_mate_of_adjacent hadj
  refine ⟨⟨i, d, o⟩, mem_candidates_iff.2 hd, ts', ⟨htiling, fun u hu => ?_⟩, hperm⟩
  -- turning the first tile around does not change its position
  have hmap : (ts.map Tile.index).Perm ((⟨i, (x, y), o.mate (x, y)⟩ :: ts').map Tile.index) := by
    rcases hperm with hperm | hperm <;> exact hperm.map Tile.index
  have hindex : u.index ∈ ts.map Tile.index := hmap.mem_iff.2 (List.mem_map_of_mem hu)
  obtain ⟨u', hu', hindex⟩ := List.mem_map.1 hindex
  rw [← hindex]
  exact h.unused u' hu'

end Completion
end Search
end DominoTiling
