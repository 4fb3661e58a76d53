import DominoTiling.Proofs.Tiling
import DominoTiling.Proofs.Laying

/-!
# Tilings as sequences of decisions

A tiling is written down tile by tile, in row-major order of the first cell of each tile, as the
sequence of the decisions that lay it: which domino, and in which direction. Decisions are ordered
by domino and then to the right before down, sequences of them lexicographically (`NotAfter`).

`decisions` looks only at where a tile begins and at its decision, and sorts. So the order of the
tiles and of the two cells of a tile do not matter (`Tiling.decisions_perm`), and where one tile
begins before all the others its decision comes first (`Tiling.decisions_cons`).
-/

namespace DominoTiling

structure Decision where
  index : Nat
  orientation : Orientation
  deriving DecidableEq

namespace Decision

/-- By the position of the domino, then to the right before down. -/
def Before (a b : Decision) : Prop :=
  a.index < b.index ∨
    (a.index = b.index ∧ a.orientation = .horizontal ∧ b.orientation = .vertical)

theorem Before.asymm {a b : Decision} (h : a.Before b) : ¬ b.Before a := by
  rcases h with hlt | ⟨hindex, hright, hdown⟩
  · rintro (hlt' | ⟨hindex', -, -⟩) <;> omega
  · rintro (hlt' | ⟨-, hright', -⟩)
    · omega
    · rw [hright'] at hdown
      cases hdown

def NotAfter (as bs : List Decision) : Prop := as = bs ∨ List.Lex Before as bs

theorem NotAfter.refl (as : List Decision) : NotAfter as as := .inl rfl

theorem NotAfter.cons {as bs : List Decision} (a : Decision) (h : NotAfter as bs) :
    NotAfter (a :: as) (a :: bs) := by
  rcases h with rfl | h
  · exact .inl rfl
  · exact .inr (.cons h)

end Decision

/-! ### Row-major order as a test -/

def rowMajor (u v : Nat × Nat) : Bool := u.1 < v.1 || (u.1 == v.1 && u.2 ≤ v.2)

section
variable {u v w : Nat × Nat}

theorem rowMajor_iff : rowMajor u v = true ↔ u.1 < v.1 ∨ (u.1 = v.1 ∧ u.2 ≤ v.2) := by
  simp [rowMajor]

theorem rowMajor_iff_fromOn : rowMajor u v = true ↔ FromOn u.1 u.2 v := by
  rw [rowMajor_iff, FromOn, eq_comm]

theorem rowMajor_total (u v : Nat × Nat) : (rowMajor u v || rowMajor v u) = true := by
  rw [Bool.or_eq_true, rowMajor_iff, rowMajor_iff]
  omega

theorem rowMajor_trans (h : rowMajor u v = true) (h' : rowMajor v w = true) :
    rowMajor u w = true := by
  rw [rowMajor_iff] at *
  omega

theorem rowMajor_antisymm (h : rowMajor u v = true) (h' : rowMajor v u = true) : u = v := by
  rw [rowMajor_iff] at h h'
  exact Prod.ext_iff.2 (by omega)

end

/-! ### Tiles -/

namespace Tile

/-- The cell of a tile that comes first in row-major order. -/
def anchor (t : Tile) : Nat × Nat := if rowMajor t.first t.second then t.first else t.second

def decision (t : Tile) : Decision :=
  ⟨t.index, if t.first.1 = t.second.1 then .horizontal else .vertical⟩

def entry (t : Tile) : (Nat × Nat) × Decision := (t.anchor, t.decision)

theorem anchor_mem_cells (t : Tile) : t.anchor ∈ t.cells := by
  unfold anchor
  split <;> simp

theorem anchor_flip (t : Tile) : t.flip.anchor = t.anchor := by
  unfold anchor flip
  dsimp only
  by_cases h : rowMajor t.first t.second = true
  · by_cases h' : rowMajor t.second t.first = true
    · rw [if_pos h', if_pos h, rowMajor_antisymm h h']
    · rw [if_neg h', if_pos h]
  · have h' := (Bool.or_eq_true_iff.1 (rowMajor_total t.first t.second)).resolve_left h
    rw [if_pos h', if_neg h]

theorem entry_flip (t : Tile) : t.flip.entry = t.entry := by
  have hdecision : t.flip.decision = t.decision := by
    simp only [decision, flip, eq_comm]
  rw [entry, anchor_flip, hdecision, entry]

end Tile

/-- Where the tiles begin, in row-major order, each with its decision. -/
def entries (ts : List Tile) : List ((Nat × Nat) × Decision) :=
  (ts.map Tile.entry).mergeSort fun a b => rowMajor a.1 b.1

/-- The decisions that lay the tiles, in row-major order of where they begin. -/
def decisions (ts : List Tile) : List Decision := (entries ts).map Prod.snd

theorem entries_perm (ts : List Tile) : (entries ts).Perm (ts.map Tile.entry) :=
  List.mergeSort_perm _ _

theorem pairwise_entries (ts : List Tile) :
    (entries ts).Pairwise fun a b => rowMajor a.1 b.1 = true :=
  List.pairwise_mergeSort (fun a b c => rowMajor_trans (u := a.1) (v := b.1) (w := c.1))
    (fun a b => rowMajor_total a.1 b.1) _

namespace Tiling
variable {b : Board} {ds : List Domino} {region : Nat × Nat → Prop} {t : Tile} {ts ts' : List Tile}

theorem anchors_nodup (h : Tiling b ds region ts) : (ts.map Tile.anchor).Nodup := by
  have hpairs := (List.nodup_flatMap.1 h.cells_nodup).2
  refine List.pairwise_map.2 (hpairs.imp fun {t u} hdisj heq => ?_)
  exact hdisj t.anchor_mem_cells (heq ▸ u.anchor_mem_cells)

theorem entries_nodup (h : Tiling b ds region ts) : (ts.map Tile.entry).Nodup := by
  refine List.Nodup.of_map Prod.fst ?_
  rw [List.map_map]
  exact h.anchors_nodup

/-- No two tiles begin at one cell, so there is one way to sort them. -/
theorem decisions_eq {es : List ((Nat × Nat) × Decision)} (h : Tiling b ds region ts)
    (hperm : (ts.map Tile.entry).Perm es)
    (hsorted : es.Pairwise fun a b => rowMajor a.1 b.1 = true) : decisions ts = es.map Prod.snd := by
  have hinj : ∀ a ∈ ts.map Tile.entry, ∀ b ∈ ts.map Tile.entry, a.1 = b.1 → a = b := by
    intro a ha b hb hab
    obtain ⟨t, ht, rfl⟩ := List.mem_map.1 ha
    obtain ⟨u, hu, rfl⟩ := List.mem_map.1 hb
    rw [List.inj_on_of_nodup_map h.anchors_nodup ht hu hab]
  have hsort := entries_perm ts
  refine congrArg _ (List.Perm.eq_of_pairwise (fun a b ha hb hab hba => ?_) (pairwise_entries ts)
    hsorted (hsort.trans hperm))
  exact hinj a (hsort.mem_iff.1 ha) b (hperm.mem_iff.2 hb) (rowMajor_antisymm hab hba)

theorem decisions_perm (h : Tiling b ds region ts)
    (hperm : (ts.map Tile.entry).Perm (ts'.map Tile.entry)) : decisions ts = decisions ts' :=
  h.decisions_eq (hperm.trans (entries_perm ts').symm) (pairwise_entries ts')

/-- A tile that begins before all the others is laid first. -/
theorem decisions_cons (h : Tiling b ds region (t :: ts))
    (hfirst : ∀ u ∈ ts, rowMajor t.anchor u.anchor = true) :
    decisions (t :: ts) = t.decision :: decisions ts := by
  have hsort := entries_perm ts
  refine h.decisions_eq (hsort.symm.cons t.entry)
    (List.pairwise_cons.2 ⟨fun e he => ?_, pairwise_entries ts⟩)
  obtain ⟨u, hu, rfl⟩ := List.mem_map.1 (hsort.mem_iff.1 he)
  exact hfirst u hu

/-! Tilings of one region whose tiles stand with their positions on the cells of one placement. -/

section
variable {p : Placement}

theorem entry_mem_of_shown (h : Tiling b ds region ts) (h' : Tiling b ds region ts')
    (hts : ∀ t ∈ ts, ∀ c ∈ t.cells, p.at? c = some (some t.index))
    (hts' : ∀ t ∈ ts', ∀ c ∈ t.cells, p.at? c = some (some t.index)) (ht : t ∈ ts) :
    t.entry ∈ ts'.map Tile.entry := by
  -- the tile of the other tiling on a cell of `t` has the position of `t`
  have hother : ∀ c ∈ t.cells, ∃ u ∈ ts', c ∈ u.cells ∧ u.index = t.index := by
    intro c hc
    have hregion := (h.mem_cells_iff c).1 (List.mem_flatMap.2 ⟨t, ht, hc⟩)
    obtain ⟨u, hu, hcu⟩ := List.mem_flatMap.1 ((h'.mem_cells_iff c).2 hregion)
    have heq := (hts' u hu c hcu).symm.trans (hts t ht c hc)
    exact ⟨u, hu, hcu, Option.some.inj (Option.some.inj heq)⟩
  obtain ⟨u, hu, hfirst, hindex⟩ := hother t.first (by simp)
  obtain ⟨u', hu', hsecond, hindex'⟩ := hother t.second (by simp)
  obtain rfl := List.inj_on_of_nodup_map h'.index_nodup hu hu' (hindex.trans hindex'.symm)
  have hne := Placement.ne_of_adjacent (h.lies t ht).adjacent
  obtain ⟨i, first, second⟩ := t
  obtain ⟨j, first', second'⟩ := u
  obtain rfl : j = i := hindex
  simp only [Tile.mem_cells] at hfirst hsecond
  refine List.mem_map.2 ⟨_, hu, ?_⟩
  rcases hfirst with rfl | rfl <;> rcases hsecond with rfl | rfl
  · exact absurd rfl hne
  · rfl
  · exact Tile.entry_flip ⟨j, first, second⟩
  · exact absurd rfl hne

theorem decisions_eq_of_shown (h : Tiling b ds region ts) (h' : Tiling b ds region ts')
    (hts : ∀ t ∈ ts, ∀ c ∈ t.cells, p.at? c = some (some t.index))
    (hts' : ∀ t ∈ ts', ∀ c ∈ t.cells, p.at? c = some (some t.index)) :
    decisions ts = decisions ts' := by
  refine h.decisions_perm ((List.perm_ext_iff_of_nodup h.entries_nodup h'.entries_nodup).2
    fun e => ⟨fun he => ?_, fun he => ?_⟩)
  · obtain ⟨t, ht, rfl⟩ := List.mem_map.1 he
    exact h.entry_mem_of_shown h' hts hts' ht
  · obtain ⟨t, ht, rfl⟩ := List.mem_map.1 he
    exact h'.entry_mem_of_shown h hts' hts ht

end
end Tiling

/-! ### Candidates -/

namespace Search

def Candidate.decision (c : Candidate) : Decision := ⟨c.index, c.orientation⟩

theorem pairwise_zipIdx (ds : List Domino) : ds.zipIdx.Pairwise fun a b => a.2 < b.2 := by
  have hsnd : (ds.zipIdx.map Prod.snd).Pairwise (· < ·) := by
    rw [List.zipIdx_map_snd]
    exact List.pairwise_lt_range' 1
  exact List.pairwise_map.1 hsnd

/-- Candidates are tried in the order of their decisions. -/
theorem pairwise_candidates (ds : List Domino) :
    (candidates ds).Pairwise fun c c' => c.decision.Before c'.decision := by
  refine List.pairwise_flatMap.2
    ⟨fun a _ => ?_, (pairwise_zipIdx ds).imp fun {a a'} hlt c hc c' hc' => ?_⟩
  · simp [Candidate.decision, Decision.Before]
  · have hc : c.index = a.2 := by
      rcases List.mem_pair.1 hc with rfl | rfl <;> rfl
    have hc' : c'.index = a'.2 := by
      rcases List.mem_pair.1 hc' with rfl | rfl <;> rfl
    exact .inl (by simpa [Candidate.decision, hc, hc'] using hlt)

variable {c : Candidate} {x y : Nat}

theorem Candidate.anchor_tile : (c.tile x y).anchor = (x, y) := by
  refine if_pos (rowMajor_iff_fromOn.2 (FromOn.iff_eq_or_next.2 (.inr ?_)))
  exact FromOn.mate c.orientation x y

theorem Candidate.decision_tile : (c.tile x y).decision = c.decision := by
  obtain ⟨i, d, o⟩ := c
  cases o <;> simp [Tile.decision, Candidate.tile, Candidate.decision, Orientation.mate]

end Search
end DominoTiling
