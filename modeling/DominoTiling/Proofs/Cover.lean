import DominoTiling.Proofs.Completion

/-!
# Searches and completions

A search with success has laid the tiles of a completion and changed no other cell
(`Outcome.exists_completed`), called off or not. A search that nothing calls off fails only where
there is no completion (`Outcome.no_completed`): each turn of its loop excludes the completions with
the tile of one candidate.
-/

namespace DominoTiling.Search

/-- The tiles lie on the cells of `p'`, and its other cells are those of `p`. -/
structure Laid (ts : List Tile) (p p' : Placement) : Prop where
  on : ∀ t ∈ ts, p'.at? t.first = some (some t.index) ∧ p'.at? t.second = some (some t.index)
  off : ∀ c, c ∉ ts.flatMap Tile.cells → p'.at? c = p.at? c

namespace Laid
variable {ts : List Tile} {p p' : Placement} {c : Nat × Nat}

theorem at?_of_mem_cells (h : Laid ts p p') :
    ∀ t ∈ ts, ∀ c ∈ t.cells, p'.at? c = some (some t.index) := by
  intro t ht c hc
  rcases Tile.mem_cells.1 hc with rfl | rfl
  · exact (h.on t ht).1
  · exact (h.on t ht).2

theorem exists_of_mem (h : Laid ts p p') (hc : c ∈ ts.flatMap Tile.cells) :
    ∃ i, p'.at? c = some (some i) := by
  obtain ⟨t, ht, hct⟩ := List.mem_flatMap.1 hc
  exact ⟨_, h.at?_of_mem_cells t ht c hct⟩

/-- The cells that were open are those that the tiles have covered. -/
theorem openFrom_iff {b : Board} {ds : List Domino} {x y : Nat} (h : Laid ts p p')
    (hts : Tiling b ds (p.OpenFrom x y) ts) :
    p.OpenFrom x y c ↔ p.at? c = some none ∧ ∃ i, p'.at? c = some (some i) := by
  constructor
  · exact fun hc => ⟨hc.1, h.exists_of_mem ((hts.mem_cells_iff c).2 hc)⟩
  · rintro ⟨hnone, i, hi⟩
    refine (hts.mem_cells_iff c).1 (Decidable.byContradiction fun hc => ?_)
    rw [h.off c hc, hnone] at hi
    cases hi

end Laid

/-- The task is completed by these tiles: they tile what is left to cover, where candidates are
tried with the tile of one of them first. -/
def Task.Completed (b : Board) (ds : List Domino) (s : Progress) : Task → List Tile → Prop
  | .cover x y, ts => Completion b ds s x y ts
  | .attempt x y cs, ts => ∃ c ∈ cs, ∃ ts', ts = c.tile x y :: ts' ∧ Completion b ds s x y ts

/-- The candidates to try are some of those from the list. -/
def Task.Offers (ds : List Domino) : Task → Prop
  | .cover _ _ => True
  | .attempt _ _ cs => ∀ c ∈ cs, c ∈ candidates ds

variable {b : Board} {ds : List Domino}

theorem Laid.cons {c : Candidate} {x y : Nat} {s s₁ : Progress} {p' : Placement} {ts : List Tile}
    (h : Laid ts s₁.placement p') (hp : s.placement.HasShape b)
    (hadm : s.admits b c x y = .ok true) (hlay : s.place c x y = .ok s₁)
    (hkeep : ∀ u i, s₁.placement.at? u = some (some i) → p'.at? u = some (some i)) :
    Laid (c.tile x y :: ts) s.placement p' := by
  have hat := Progress.at?_place hp hadm hlay
  refine ⟨fun t ht => ?_, fun u hu => ?_⟩
  · rcases List.mem_cons.1 ht with rfl | ht
    · refine ⟨hkeep _ _ ?_, hkeep _ _ ?_⟩
      · rw [hat]
        simp [Candidate.tile]
      · rw [hat]
        simp [Candidate.tile]
    · exact h.on t ht
  · simp only [List.flatMap_cons, Tile.cells, Candidate.tile, List.cons_append, List.nil_append,
      List.mem_cons, not_or] at hu
    rw [h.off u hu.2.2, hat, if_neg hu.2.1, if_neg hu.1]

namespace Outcome
variable {raised : Nat → Bool} {t : Task} {s s' : Progress} {r : Bool}

theorem exists_completed (h : Outcome b (candidates ds) raised t s r s') (hr : r = true)
    (hp : s.placement.HasShape b) (ht : t.Offers ds) :
    ∃ ts, t.Completed b ds s ts ∧ Laid ts s.placement s'.placement := by
  induction h with
  | calledOff => cases hr
  | rowEnd _ hy _ _ ih =>
    obtain ⟨ts, hts, hlaid⟩ := ih hr hp trivial
    exact ⟨ts, (Completion.rowEnd_iff hp hy).1 hts, hlaid⟩
  | complete _ _ hx => exact ⟨[], (Completion.iff_eq_nil hp hx).2 rfl, by simp, fun _ _ => rfl⟩
  | covered _ hy hx hset _ ih =>
    obtain ⟨i, hi⟩ := (Placement.isSet_true_iff (hp.1 ▸ hx) (hp.2 ▸ hy)).1 hset
    obtain ⟨ts, hts, hlaid⟩ := ih hr hp trivial
    exact ⟨ts, (Completion.covered_iff hi).1 hts, hlaid⟩
  | empty _ _ _ _ _ ih =>
    obtain ⟨ts, ⟨c, -, ts', -, hts⟩, hlaid⟩ := ih hr hp fun _ hc => hc
    exact ⟨ts, (Completion.alike_iff (.enter _)).1 hts, hlaid⟩
  | exhausted => cases hr
  | refused _ _ ih =>
    obtain ⟨ts, ⟨c, hc, hts⟩, hlaid⟩ := ih hr hp fun c hc => ht c (List.mem_cons_of_mem _ hc)
    exact ⟨ts, ⟨c, List.mem_cons_of_mem _ hc, hts⟩, hlaid⟩
  | @found x y c cs s s₁ s' hadm hlay onward ih =>
    have hc := ht c (List.mem_cons_self ..)
    obtain ⟨ts, hts, hlaid⟩ := ih rfl (Progress.hasShape_place hp hlay) trivial
    exact ⟨c.tile x y :: ts, ⟨c, List.mem_cons_self .., ts, rfl,
      (Completion.place_iff hp hc hadm hlay).1 hts⟩,
      hlaid.cons hp hadm hlay fun _ _ hu => onward.at?_keeps hu⟩
  | undone hadm hlay onward hback _ _ ihNext =>
    have hs := Progress.takeBack_place hadm hlay (onward.restores rfl) hback
    obtain ⟨ts, ⟨c, hc, ts', heq, hts⟩, hlaid⟩ :=
      ihNext hr (hs.placement ▸ hp) fun c hc => ht c (List.mem_cons_of_mem _ hc)
    exact ⟨ts, ⟨c, List.mem_cons_of_mem _ hc, ts', heq, (Completion.alike_iff hs).1 hts⟩,
      hs.placement ▸ hlaid⟩

theorem no_completed (h : Outcome b (candidates ds) never t s r s') (hr : r = false)
    (hp : s.placement.HasShape b) (ht : t.Offers ds) (ts : List Tile) :
    ¬ t.Completed b ds s ts := by
  induction h generalizing ts with
  | calledOff hread => cases hread
  | rowEnd _ hy _ _ ih =>
    exact fun hts => ih hr hp trivial ts ((Completion.rowEnd_iff hp hy).2 hts)
  | complete => cases hr
  | covered _ hy hx hset _ ih =>
    obtain ⟨i, hi⟩ := (Placement.isSet_true_iff (hp.1 ▸ hx) (hp.2 ▸ hy)).1 hset
    exact fun hts => ih hr hp trivial ts ((Completion.covered_iff hi).2 hts)
  | empty _ hy hx hset _ ih =>
    have hempty := (Placement.isSet_false_iff (hp.1 ▸ hx) (hp.2 ▸ hy)).1 hset
    intro hts
    obtain ⟨c, hc, ts', hts', -⟩ := Completion.exists_candidate hempty hts
    exact ih hr hp (fun _ hc => hc) _ ⟨c, hc, ts', rfl, (Completion.alike_iff (.enter _)).2 hts'⟩
  | exhausted =>
    rintro ⟨c, hc, -⟩
    cases hc
  | refused hadm _ ih =>
    rintro ⟨c, hc, ts', rfl, hts⟩
    rcases List.mem_cons.1 hc with rfl | hc'
    · rw [hts.admits hp (ht _ hc)] at hadm
      cases hadm
    · exact ih hr hp (fun c hc => ht c (List.mem_cons_of_mem _ hc)) _ ⟨c, hc', ts', rfl, hts⟩
  | found => cases hr
  | undone hadm hlay onward hback _ ih ihNext =>
    rintro ⟨c, hc, ts', rfl, hts⟩
    rcases List.mem_cons.1 hc with rfl | hc'
    · exact ih rfl (Progress.hasShape_place hp hlay) trivial ts'
        ((Completion.place_iff hp (ht _ hc) hadm hlay).2 hts)
    · have hs := Progress.takeBack_place hadm hlay (onward.restores rfl) hback
      exact ihNext hr (hs.placement ▸ hp) (fun c hc => ht c (List.mem_cons_of_mem _ hc)) _
        ⟨c, hc', ts', rfl, (Completion.alike_iff hs).2 hts⟩

end Outcome
end DominoTiling.Search
