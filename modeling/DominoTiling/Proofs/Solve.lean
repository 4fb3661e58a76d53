import DominoTiling.Proofs.Cover
import DominoTiling.Proofs.ExactCover

/-!
# Solving a board

What the outcome of a search on a placement says about the covers of the board. Success leaves a
tiling of the cells that were open, laid over the placement as it was (`tiling_of_solved`); failure
means that no tiling of these cells exists (`no_tiling_of_unsolved`) and that nothing has changed,
as does a refusal to start (`unsolved_restores`).
-/

namespace DominoTiling.Search
variable {b : Board} {p q : Placement} {ds : List Domino} {x y : Nat}

theorem solveInPlace_eq_error_iff {e : PuzzleError} :
    solveInPlace b ds x y p = .ok (.error e, q) ↔ p.checkShape b = .error e ∧ q = p := by
  unfold solveInPlace
  split
  · rename_i e' he
    rw [he, Except.ok.injEq, Prod.mk.injEq, Except.error.injEq, Except.error.injEq]
    exact and_congr_right fun _ => eq_comm
  · rename_i hok
    rw [hok]
    refine ⟨fun h => ?_, fun h => by cases h.1⟩
    obtain ⟨r, -, h⟩ := bind_eq_ok_iff.1 h
    dsimp only at h
    split at h
    · cases h
    · obtain ⟨n, -, h⟩ := bind_eq_ok_iff.1 h
      cases h

/-- An answer is that of a search on a placement of the right shape. -/
theorem run_of_solveInPlace {t : Tally} (h : solveInPlace b ds x y p = .ok (.ok t, q)) :
    p.HasShape b ∧ ∃ s, run b (candidates ds) never x y (.start p ds.length) = .ok (t.solved, s) ∧
      q = s.placement := by
  unfold solveInPlace at h
  split at h
  · cases h
  · rename_i hok
    obtain ⟨⟨solved, s⟩, hrun, h⟩ := bind_eq_ok_iff.1 h
    dsimp only at h
    split at h
    · cases h
    · obtain ⟨n, -, h⟩ := bind_eq_ok_iff.1 h
      cases h
      exact ⟨Placement.checkShape_eq_ok_iff.1 hok, s, hrun, rfl⟩

theorem run_of_solveFrom {v : Verdict} (h : solveFrom b p ds x y = .ok v) :
    p.HasShape b ∧ ∃ s, run b (candidates ds) never x y (.start p ds.length) = .ok (v.solved, s) ∧
      v.placement = s.placement := by
  unfold solveFrom at h
  split at h
  · cases h
  · cases h
  · rename_i t q hsolve
    cases h
    exact run_of_solveInPlace hsolve

/-- A search that fails from a start takes every domino out of use again. -/
theorem isEmpty_of_run_start {s : Progress}
    (h : run b (candidates ds) never x y (.start p ds.length) = .ok (false, s)) :
    s.inUse.isEmpty = true := by
  rw [((run_eq_ok_iff.1 h).restores rfl).inUse]
  exact IndexSet.isEmpty_empty ds.length

theorem check_of_run {solved : Bool} {s : Progress}
    (h : run b (candidates ds) never x y (.start p ds.length) = .ok (solved, s)) :
    (solved || s.inUse.isEmpty) = true := by
  cases solved with
  | true => rfl
  | false => exact isEmpty_of_run_start h

/-- A search that ends gives an answer if a word can count its steps. -/
theorem solveFrom_of_run {solved : Bool} {s : Progress} (hp : p.HasShape b)
    (h : run b (candidates ds) never x y (.start p ds.length) = .ok (solved, s)) :
    solveFrom b p ds x y =
      if s.nodes < 2 ^ 64 then .ok ⟨solved, s.placement, ds.length, s.nodes, s.backtracks⟩
      else .error (.fault .overflow) := by
  rw [solveFrom, solveInPlace, Placement.checkShape_eq_ok_iff.2 hp, h]
  simp only [bind, Except.bind, check_of_run h, Bool.not_true, Bool.false_eq_true, ↓reduceIte]
  rcases Nat.lt_or_ge s.nodes (2 ^ 64) with hsteps | hsteps
  · rw [word_of_lt hsteps, if_pos hsteps]
    rfl
  · rw [word_of_le hsteps, if_neg (Nat.not_lt.2 hsteps)]

theorem solveFrom_eq_ok_iff {v : Verdict} :
    solveFrom b p ds x y = .ok v ↔ p.HasShape b ∧ ∃ solved s,
      run b (candidates ds) never x y (.start p ds.length) = .ok (solved, s) ∧ s.nodes < 2 ^ 64 ∧
        v = ⟨solved, s.placement, ds.length, s.nodes, s.backtracks⟩ := by
  constructor
  · intro h
    obtain ⟨hp, s, hrun, -⟩ := run_of_solveFrom h
    rw [solveFrom_of_run hp hrun] at h
    split at h
    · rename_i hsteps
      exact ⟨hp, v.solved, s, hrun, hsteps, (Except.ok.inj h).symm⟩
    · cases h
  · rintro ⟨hp, solved, s, hrun, hsteps, rfl⟩
    exact (solveFrom_of_run hp hrun).trans (if_pos hsteps)

theorem solveFrom_of_run_fault {f : Fault} (hp : p.HasShape b)
    (h : run b (candidates ds) never x y (.start p ds.length) = .error f) :
    solveFrom b p ds x y = .error (.fault f) := by
  rw [solveFrom, solveInPlace, Placement.checkShape_eq_ok_iff.2 hp, h]
  rfl

/-- The check at the end of a search holds: what stops is the search or the count of its steps. -/
theorem run_of_solveInPlace_fault {f : Fault} (h : solveInPlace b ds x y p = .error f) :
    run b (candidates ds) never x y (.start p ds.length) = .error f ∨
      ∃ r, run b (candidates ds) never x y (.start p ds.length) = .ok r ∧ 2 ^ 64 ≤ r.2.nodes := by
  unfold solveInPlace at h
  split at h
  · cases h
  · cases hrun : run b (candidates ds) never x y (.start p ds.length) with
    | error f' =>
      rw [hrun] at h
      exact .inl (congrArg _ (Except.error.inj h))
    | ok r =>
      refine .inr ⟨r, rfl, Nat.le_of_not_lt fun hlt => ?_⟩
      obtain ⟨solved, s⟩ := r
      rw [hrun] at h
      simp only [bind, Except.bind, check_of_run hrun, Bool.not_true, Bool.false_eq_true, ↓reduceIte,
        word_of_lt hlt] at h
      cases h

/-- A completion of the start of a search is a tiling of the open cells. -/
theorem completion_start_iff {ts : List Tile} :
    Completion b ds (.start p ds.length) x y ts ↔ Tiling b ds (p.OpenFrom x y) ts := by
  refine ⟨Completion.tiling, fun h => ⟨h, fun t ht => IndexSet.contains_empty ?_⟩⟩
  exact (h.lies t ht).index_lt

/-- On a placement without dominoes, all that is left to cover is the whole board. -/
theorem completion_clear_iff (hp : p.HasShape b) (hclear : p.isClear = true) {ts : List Tile} :
    Completion b ds (.start p ds.length) 0 0 ts ↔ BoardTiling b ds ts := by
  have hopen : ∀ c, p.OpenFrom 0 0 c ↔ c.1 < b.rows ∧ c.2 < b.cols := by
    intro c
    rw [← hp.1, ← hp.2]
    constructor
    · exact fun hc => Grid.lt_of_at? hc.1
    · intro hc
      obtain ⟨o, ho⟩ := Grid.exists_at? hc
      obtain rfl := Placement.isClear_iff.1 hclear c o ho
      exact ⟨ho, by unfold FromOn; omega⟩
  rw [completion_start_iff]
  exact ⟨fun h => h.congr hopen, fun h => h.congr fun c => (hopen c).symm⟩

theorem completion_forBoard_iff (hp : Placement.forBoard b = .ok p)
    {ts : List Tile} : Completion b ds (.start p ds.length) 0 0 ts ↔ BoardTiling b ds ts :=
  completion_clear_iff (Placement.at?_forBoard hp).1 (Placement.isClear_forBoard hp)

/-- On a placement without dominoes a search decides whether the board has a tiling. -/
theorem solved_iff_of_clear {v : Verdict} (hclear : p.isClear = true) (h : solve b p ds = .ok v) :
    v.solved = true ↔ ∃ ts, BoardTiling b ds ts := by
  obtain ⟨hshape, s, hrun, -⟩ := run_of_solveFrom h
  have houtcome := run_eq_ok_iff.1 hrun
  constructor
  · intro hv
    rw [hv] at houtcome
    obtain ⟨ts, hts, -⟩ := houtcome.exists_completed rfl hshape trivial
    exact ⟨ts, (completion_clear_iff hshape hclear).1 hts⟩
  · rintro ⟨ts, hts⟩
    by_contra hv
    rw [Bool.eq_false_iff.2 hv] at houtcome
    exact houtcome.no_completed rfl hshape trivial ts ((completion_clear_iff hshape hclear).2 hts)

theorem solved_iff_boardTiling {v : Verdict} (hp : Placement.forBoard b = .ok p)
    (h : solve b p ds = .ok v) : v.solved = true ↔ ∃ ts, BoardTiling b ds ts :=
  solved_iff_of_clear (Placement.isClear_forBoard hp) h

/-- Success leaves the tiles of a tiling of the open cells behind. -/
theorem exists_laid {v : Verdict} (h : solveFrom b p ds x y = .ok v) (hv : v.solved = true) :
    v.placement.HasShape b ∧ ∃ ts, Tiling b ds (p.OpenFrom x y) ts ∧ Laid ts p v.placement := by
  obtain ⟨hshape, s, hrun, hplacement⟩ := run_of_solveFrom h
  rw [hv] at hrun
  have houtcome := run_eq_ok_iff.1 hrun
  obtain ⟨ts, hts, hlaid⟩ := houtcome.exists_completed rfl hshape trivial
  rw [hplacement]
  exact ⟨houtcome.hasShape hshape, ts, completion_start_iff.1 hts, hlaid⟩

theorem exactCover_of_solve {v : Verdict} (hp : Placement.forBoard b = .ok p)
    (h : solve b p ds = .ok v) (hv : v.solved = true) : ExactCover b ds v.placement := by
  obtain ⟨hshape, ts, hts, hlaid⟩ := exists_laid h hv
  have htiling := (completion_forBoard_iff hp).1 (completion_start_iff.2 hts)
  exact ExactCover.of_tiling hshape htiling hlaid.on

/-- A solved board: cells that were covered stay so, cells before the start stay as they are, all
from the start on are covered, and the new ones in pairs by dominoes of the list, each used once. -/
theorem tiling_of_solved {v : Verdict} (h : solveFrom b p ds x y = .ok v) (hv : v.solved = true) :
    v.placement.HasShape b ∧
    (∀ c i, p.at? c = some (some i) → v.placement.at? c = some (some i)) ∧
    (∀ c, ¬ FromOn x y c → v.placement.at? c = p.at? c) ∧
    (∀ c : Nat × Nat, c.1 < b.rows → c.2 < b.cols → FromOn x y c →
      ∃ i, v.placement.at? c = some (some i)) ∧
    (∃ ts, Tiling b ds (fun c => p.at? c = some none ∧ ∃ i, v.placement.at? c = some (some i)) ts ∧
      ∀ t ∈ ts, v.placement.at? t.first = some (some t.index) ∧
        v.placement.at? t.second = some (some t.index)) ∧
    (p.isClear = true → x = 0 → y = 0 → ExactCover b ds v.placement) := by
  obtain ⟨hp, s, hrun, hplacement⟩ := run_of_solveFrom h
  rw [hv] at hrun
  have houtcome := run_eq_ok_iff.1 hrun
  have hshape : v.placement.HasShape b := by
    rw [hplacement]
    exact houtcome.hasShape hp
  obtain ⟨ts, hts, hlaid⟩ := houtcome.exists_completed rfl hp trivial
  have hlaid : Laid ts p v.placement := hplacement ▸ hlaid
  have htiling := completion_start_iff.1 hts
  refine ⟨hshape, fun c i hc => ?_, fun c hc => ?_, fun c hx hy hc => ?_,
    ⟨ts, htiling.congr fun c => hlaid.openFrom_iff htiling, hlaid.on⟩, fun hclear hx hy => ?_⟩
  · rw [hplacement]
    exact houtcome.at?_keeps hc
  · exact hlaid.off c fun hmem => hc ((htiling.mem_cells_iff c).1 hmem).2
  · obtain ⟨o, ho⟩ := Grid.exists_at? (g := p) (c := c) (by rw [hp.1, hp.2]; exact ⟨hx, hy⟩)
    cases o with
    | none => exact hlaid.exists_of_mem ((htiling.mem_cells_iff c).2 ⟨ho, hc⟩)
    | some i =>
      rw [hplacement]
      exact ⟨i, houtcome.at?_keeps ho⟩
  · subst hx hy
    refine ExactCover.of_tiling hshape (htiling.congr fun c => ?_) hlaid.on
    rw [← hp.1, ← hp.2]
    refine ⟨fun hc => Grid.lt_of_at? hc.1, fun hc => ?_⟩
    obtain ⟨o, ho⟩ := Grid.exists_at? hc
    obtain rfl := Placement.isClear_iff.1 hclear c o ho
    exact ⟨ho, by unfold FromOn; omega⟩

theorem tiling_of_solved_from_second_row :
    ∃ v, solveFrom ⟨3, 2, #[9, 9, 1, 2, 3, 7], rfl, by decide⟩
        ⟨3, 2, #[none, none, none, some 5, none, some 5], rfl, by decide⟩
        [⟨9, 9⟩, ⟨1, 2⟩, ⟨3, 1⟩] 1 0 = .ok v ∧ v.solved = true ∧
      v.placement.at? (0, 1) = some none ∧ v.placement.at? (1, 1) = some (some 5) ∧
      (∃ i, v.placement.at? (2, 0) = some (some i)) := by
  have h : solveFrom ⟨3, 2, #[9, 9, 1, 2, 3, 7], rfl, by decide⟩
      ⟨3, 2, #[none, none, none, some 5, none, some 5], rfl, by decide⟩
      [⟨9, 9⟩, ⟨1, 2⟩, ⟨3, 1⟩] 1 0 =
      .ok ⟨true, ⟨3, 2, #[none, none, some 2, some 5, some 2, some 5], rfl, by decide⟩, 3, 7,
        0⟩ := by
    cbv
  obtain ⟨-, hkept, hbefore, hcovered, -, -⟩ := tiling_of_solved h rfl
  refine ⟨_, h, rfl, ?_, hkept (1, 1) 5 rfl, ?_⟩
  · exact (hbefore (0, 1) (by simp [FromOn])).trans rfl
  · exact hcovered (2, 0) (by decide) (by decide) (.inl (by decide))

/-- No tiling of the open cells exists where a search fails, whichever cells are paired. -/
theorem no_tiling_of_unsolved {v : Verdict} (h : solveFrom b p ds x y = .ok v)
    (hv : v.solved = false) :
    ¬ ∃ ts, Tiling b ds (fun c => p.at? c = some none ∧ FromOn x y c) ts := by
  obtain ⟨hp, s, hrun, -⟩ := run_of_solveFrom h
  rw [hv] at hrun
  rintro ⟨ts, hts⟩
  exact (run_eq_ok_iff.1 hrun).no_completed rfl hp trivial ts (completion_start_iff.2 hts)

theorem no_tiling_of_unsolved_two_by_two :
    ∃ (p : Placement) (v : Verdict),
      solveFrom ⟨2, 2, #[0, 1, 0, 1], rfl, by decide⟩ p [⟨0, 1⟩, ⟨0, 0⟩] 0 0 = .ok v ∧
      v.solved = false ∧ 0 < v.backtracks ∧
      ¬ ∃ ts, Tiling ⟨2, 2, #[0, 1, 0, 1], rfl, by decide⟩ [⟨0, 1⟩, ⟨0, 0⟩]
        (fun c => p.at? c = some none ∧ FromOn 0 0 c) ts := by
  have h : solveFrom ⟨2, 2, #[0, 1, 0, 1], rfl, by decide⟩
      ⟨2, 2, #[none, none, none, none], rfl, by decide⟩ [⟨0, 1⟩, ⟨0, 0⟩] 0 0 =
      .ok ⟨false, ⟨2, 2, #[none, none, none, none], rfl, by decide⟩, 2, 5, 2⟩ := by
    cbv
  exact ⟨_, _, h, rfl, by decide, no_tiling_of_unsolved h rfl⟩

/-- A search without success changes nothing. It refuses to start exactly where the shapes differ,
and hands the placement back; where it fails the placement is as before and no domino is in use, so
its last check holds. Whatever the flag reads, every call that fails leaves the cells and the
positions in use as they were, and every call that succeeds keeps the covered cells. -/
theorem unsolved_restores (b : Board) (ds : List Domino) (x y : Nat) (p : Placement) :
    ((∃ e q, solveInPlace b ds x y p = .ok (.error e, q)) ↔ ¬ p.HasShape b) ∧
    (∀ e q, solveInPlace b ds x y p = .ok (.error e, q) → q = p) ∧
    (∀ t q, solveInPlace b ds x y p = .ok (.ok t, q) → t.solved = false → q = p) ∧
    (∀ s, run b (candidates ds) never x y (.start p ds.length) = .ok (false, s) →
      s.inUse.isEmpty = true) ∧
    (∀ f, solveInPlace b ds x y p = .error f →
      run b (candidates ds) never x y (.start p ds.length) = .error f ∨
        ∃ r, run b (candidates ds) never x y (.start p ds.length) = .ok r ∧ 2 ^ 64 ≤ r.2.nodes) ∧
    (∀ raised cs u v s s', run b cs raised u v s = .ok (false, s') →
      s'.placement = s.placement ∧ s'.inUse = s.inUse) ∧
    (∀ raised cs u v s s', run b cs raised u v s = .ok (true, s') →
      ∀ c i, s.placement.at? c = some (some i) → s'.placement.at? c = some (some i)) := by
  refine ⟨⟨?_, fun hp => ?_⟩, fun e q h => (solveInPlace_eq_error_iff.1 h).2, fun t q h ht => ?_,
    fun s => isEmpty_of_run_start, fun f => run_of_solveInPlace_fault,
    fun raised cs u v s s' h => ?_, fun raised cs u v s s' h c i =>
      (run_eq_ok_iff.1 h).at?_keeps⟩
  · rintro ⟨e, q, h⟩
    exact (Placement.checkShape_eq_error_iff.1 (solveInPlace_eq_error_iff.1 h).1).1
  · exact ⟨_, p, solveInPlace_eq_error_iff.2
      ⟨Placement.checkShape_eq_error_iff.2 ⟨hp, rfl⟩, rfl⟩⟩
  · obtain ⟨-, s, hrun, rfl⟩ := run_of_solveInPlace h
    rw [ht] at hrun
    exact ((run_eq_ok_iff.1 hrun).restores rfl).placement
  · have halike := (run_eq_ok_iff.1 h).restores rfl
    exact ⟨halike.placement, halike.inUse⟩

end DominoTiling.Search
