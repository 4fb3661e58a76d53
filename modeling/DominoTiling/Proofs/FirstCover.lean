import DominoTiling.Proofs.Solve
import DominoTiling.Proofs.Decisions

/-!
# The first cover

Among all covers of the open cells, a search finds the one whose decisions come first. Two
completions at an empty cell differ in their first decision or agree in it: the decision on the
empty cell is that of a candidate and comes before all others of its completion
(`Completion.decisions_cons`). Candidates are tried in the order of their decisions, and one that is
passed over has no completion with its tile; so what is found behind the first candidate with a
completion is compared with completions that begin with this candidate or a later one.
-/

namespace DominoTiling.Search
open Decision (NotAfter)
variable {b : Board} {ds : List Domino}

/-- The candidates to try stand in the order of their decisions. -/
def Task.Ordered : Task → Prop
  | .cover _ _ => True
  | .attempt _ _ cs => cs.Pairwise fun c c' => c.decision.Before c'.decision

namespace Completion
variable {s : Progress} {c : Candidate} {x y : Nat} {ts : List Tile}

theorem decisions_cons (h : Completion b ds s x y (c.tile x y :: ts)) :
    decisions (c.tile x y :: ts) = c.decision :: decisions ts := by
  rw [← Candidate.decision_tile (x := x) (y := y)]
  refine h.tiling.decisions_cons fun u hu => ?_
  have hmem : u.anchor ∈ (c.tile x y :: ts).flatMap Tile.cells :=
    List.mem_flatMap.2 ⟨u, List.mem_cons_of_mem _ hu, u.anchor_mem_cells⟩
  rw [Candidate.anchor_tile]
  exact rowMajor_iff_fromOn.2 ((h.tiling.mem_cells_iff _).1 hmem).2

/-- At an empty cell the decisions of every completion begin with those for that cell. -/
theorem exists_candidate_decisions (hempty : s.placement.at? (x, y) = some none)
    (h : Completion b ds s x y ts) :
    ∃ c ∈ candidates ds, ∃ ts', Completion b ds s x y (c.tile x y :: ts') ∧
      decisions ts = decisions (c.tile x y :: ts') := by
  obtain ⟨c, hc, ts', hts, hperm⟩ := h.exists_candidate hempty
  refine ⟨c, hc, ts', hts, h.tiling.decisions_perm ?_⟩
  rcases hperm with hperm | hperm
  · exact hperm.map Tile.entry
  · have hmap := hperm.map Tile.entry
    rw [List.map_cons, Tile.entry_flip] at hmap
    exact hmap

end Completion

/-- The completions of the loop at an empty cell are led by a candidate that is still to be tried;
one that leads with the first candidate is no later than any of them. -/
theorem Task.Completed.notAfter {s : Progress} {x y : Nat} {c : Candidate} {cs : List Candidate}
    {ts ts' : List Tile} (hts : Completion b ds s x y (c.tile x y :: ts))
    (hmin : ∀ us, Completion b ds s x y (c.tile x y :: us) → NotAfter (decisions ts) (decisions us))
    (ho : (Task.attempt x y (c :: cs)).Ordered)
    (hts' : (Task.attempt x y (c :: cs)).Completed b ds s ts') :
    NotAfter (decisions (c.tile x y :: ts)) (decisions ts') := by
  obtain ⟨c', hc', us, rfl, hus⟩ := hts'
  rw [hts.decisions_cons, hus.decisions_cons]
  rcases List.mem_cons.1 hc' with rfl | hc'
  · exact (hmin us hus).cons _
  · exact .inr (.rel ((List.pairwise_cons.1 ho).1 c' hc'))

namespace Outcome
variable {t : Task} {s s' : Progress} {r : Bool}

theorem exists_first (h : Outcome b (candidates ds) never t s r s') (hr : r = true)
    (hp : s.placement.HasShape b) (ht : t.Offers ds) (ho : t.Ordered) :
    ∃ ts, t.Completed b ds s ts ∧ Laid ts s.placement s'.placement ∧
      ∀ ts', t.Completed b ds s ts' → NotAfter (decisions ts) (decisions ts') := by
  induction h with
  | calledOff => cases hr
  | rowEnd _ hy _ _ ih =>
    obtain ⟨ts, hts, hlaid, hmin⟩ := ih hr hp trivial trivial
    exact ⟨ts, (Completion.rowEnd_iff hp hy).1 hts, hlaid,
      fun ts' hts' => hmin ts' ((Completion.rowEnd_iff hp hy).2 hts')⟩
  | complete _ _ hx =>
    refine ⟨[], (Completion.iff_eq_nil hp hx).2 rfl, ⟨by simp, fun _ _ => rfl⟩, fun ts' hts' => ?_⟩
    obtain rfl := (Completion.iff_eq_nil hp hx).1 hts'
    exact .refl _
  | covered _ hy hx hset _ ih =>
    obtain ⟨i, hi⟩ := (Placement.isSet_true_iff (hp.1 ▸ hx) (hp.2 ▸ hy)).1 hset
    obtain ⟨ts, hts, hlaid, hmin⟩ := ih hr hp trivial trivial
    exact ⟨ts, (Completion.covered_iff hi).1 hts, hlaid,
      fun ts' hts' => hmin ts' ((Completion.covered_iff hi).2 hts')⟩
  | empty _ hy hx hset _ ih =>
    have hempty := (Placement.isSet_false_iff (hp.1 ▸ hx) (hp.2 ▸ hy)).1 hset
    obtain ⟨ts, ⟨c, -, ts₀, -, hts⟩, hlaid, hmin⟩ :=
      ih hr hp (fun _ hc => hc) (pairwise_candidates ds)
    refine ⟨ts, (Completion.alike_iff (.enter _)).1 hts, hlaid, fun ts' hts' => ?_⟩
    obtain ⟨c', hc', us, hus, heq⟩ := Completion.exists_candidate_decisions hempty hts'
    rw [heq]
    exact hmin _ ⟨c', hc', us, rfl, (Completion.alike_iff (.enter _)).2 hus⟩
  | exhausted => cases hr
  | refused hadm _ ih =>
    obtain ⟨ts, ⟨c, hc, hts⟩, hlaid, hmin⟩ :=
      ih hr hp (fun c hc => ht c (List.mem_cons_of_mem _ hc)) (List.pairwise_cons.1 ho).2
    refine ⟨ts, ⟨c, List.mem_cons_of_mem _ hc, hts⟩, hlaid, ?_⟩
    rintro _ ⟨c', hc', us, rfl, hus⟩
    rcases List.mem_cons.1 hc' with rfl | hc''
    · rw [hus.admits hp (ht _ hc')] at hadm
      cases hadm
    · exact hmin _ ⟨c', hc'', us, rfl, hus⟩
  | @found x y c cs s s₁ s' hadm hlay onward ih =>
    have hc := ht c (List.mem_cons_self ..)
    obtain ⟨ts, hts, hlaid, hmin⟩ := ih rfl (Progress.hasShape_place hp hlay) trivial trivial
    have hts := (Completion.place_iff hp hc hadm hlay).1 hts
    refine ⟨c.tile x y :: ts, ⟨c, List.mem_cons_self .., ts, rfl, hts⟩,
      hlaid.cons hp hadm hlay fun _ _ hu => onward.at?_keeps hu, fun ts' hts' => ?_⟩
    exact Task.Completed.notAfter hts
      (fun us hus => hmin us ((Completion.place_iff hp hc hadm hlay).2 hus)) ho hts'
  | undone hadm hlay onward hback _ _ ihNext =>
    have hs := Progress.takeBack_place hadm hlay (onward.restores rfl) hback
    obtain ⟨ts, ⟨c, hc, ts₀, heq, hts⟩, hlaid, hmin⟩ :=
      ihNext hr (hs.placement ▸ hp) (fun c hc => ht c (List.mem_cons_of_mem _ hc))
        (List.pairwise_cons.1 ho).2
    refine ⟨ts, ⟨c, List.mem_cons_of_mem _ hc, ts₀, heq, (Completion.alike_iff hs).1 hts⟩,
      hs.placement ▸ hlaid, ?_⟩
    rintro _ ⟨c', hc', us, rfl, hus⟩
    rcases List.mem_cons.1 hc' with rfl | hc''
    -- behind the candidate that was taken back there was no completion
    · exact absurd ((Completion.place_iff hp (ht _ hc') hadm hlay).2 hus)
        (onward.no_completed rfl (Progress.hasShape_place hp hlay) trivial us)
    · exact hmin _ ⟨c', hc'', us, rfl, (Completion.alike_iff hs).2 hus⟩

end Outcome

variable {p : Placement} {x y : Nat}

/-- A solved board shows the first of all covers of the cells that were open: its decisions, in
row-major order, come no later than those of any other. -/
theorem decisions_notAfter_of_solved {v : Verdict} (h : solveFrom b p ds x y = .ok v)
    (hv : v.solved = true) :
    (∃ ts, Tiling b ds (p.OpenFrom x y) ts ∧ Laid ts p v.placement) ∧
    ∀ ts, Tiling b ds (p.OpenFrom x y) ts → Laid ts p v.placement →
      ∀ ts', Tiling b ds (p.OpenFrom x y) ts' → NotAfter (decisions ts) (decisions ts') := by
  obtain ⟨hp, s, hrun, hplacement⟩ := run_of_solveFrom h
  rw [hv] at hrun
  obtain ⟨ts₀, hts₀, hlaid₀, hmin⟩ :=
    (run_eq_ok_iff.1 hrun).exists_first rfl hp trivial trivial
  rw [← hplacement] at hlaid₀
  have htiling₀ := completion_start_iff.1 hts₀
  refine ⟨⟨ts₀, htiling₀, hlaid₀⟩, fun ts hts hlaid ts' hts' => ?_⟩
  rw [hts.decisions_eq_of_shown htiling₀ hlaid.at?_of_mem_cells hlaid₀.at?_of_mem_cells]
  exact hmin ts' (completion_start_iff.2 hts')

theorem decisions_notAfter_of_solved_two_by_two :
    ∃ v ts, solveFrom ⟨2, 2, #[0, 1, 2, 3], rfl, by decide⟩
        ⟨2, 2, #[none, none, none, none], rfl, by decide⟩
        [⟨0, 1⟩, ⟨1, 3⟩, ⟨0, 2⟩, ⟨2, 3⟩] 0 0 = .ok v ∧ v.solved = true ∧
      Laid ts ⟨2, 2, #[none, none, none, none], rfl, by decide⟩ v.placement ∧
      NotAfter (decisions ts) (decisions [⟨1, (1, 1), (0, 1)⟩, ⟨2, (0, 0), (1, 0)⟩]) := by
  have h : solveFrom ⟨2, 2, #[0, 1, 2, 3], rfl, by decide⟩
      ⟨2, 2, #[none, none, none, none], rfl, by decide⟩
      [⟨0, 1⟩, ⟨1, 3⟩, ⟨0, 2⟩, ⟨2, 3⟩] 0 0 =
      .ok ⟨true, ⟨2, 2, #[some 0, some 0, some 3, some 3], rfl, by decide⟩, 4, 7, 0⟩ := by
    cbv
  obtain ⟨⟨ts, hts, hlaid⟩, hfirst⟩ := decisions_notAfter_of_solved h rfl
  -- the two columns are another cover, its tiles listed from the right and from below
  refine ⟨_, ts, h, rfl, hlaid, hfirst ts hts hlaid _
    ⟨fun t ht => ?_, by decide, by decide, fun c => ⟨fun hc => ?_, fun hc => ?_⟩⟩⟩
  · rcases List.mem_pair.1 ht with rfl | rfl
    · exact ⟨rfl, ⟨1, 3⟩, 3, 1, rfl, rfl, rfl, rfl⟩
    · exact ⟨rfl, ⟨0, 2⟩, 0, 2, rfl, rfl, rfl, rfl⟩
  · have hcases : c = (1, 1) ∨ c = (0, 1) ∨ c = (0, 0) ∨ c = (1, 0) := by
      simpa [Tile.cells] using hc
    rcases hcases with rfl | rfl | rfl | rfl <;> exact ⟨rfl, by simp [FromOn]⟩
  · obtain ⟨x, y⟩ := c
    have hlt : x < 2 ∧ y < 2 := Grid.lt_of_at? hc.1
    have hcases : (x = 0 ∨ x = 1) ∧ (y = 0 ∨ y = 1) := by omega
    rcases hcases with ⟨rfl | rfl, rfl | rfl⟩ <;> decide

end DominoTiling.Search
