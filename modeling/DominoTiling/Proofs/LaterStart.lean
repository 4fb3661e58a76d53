import DominoTiling.Proofs.Counters
import DominoTiling.Proofs.Returns

/-!
# Searches that start later

A search changes nothing at a covered cell and at the end of a row: it goes on to the next cell, or to
the next row, and counts one step. So where every cell before a start is covered, the search from the
top left cell comes to the start after one step for each of these cells and one for each row end
between them (`run_skip`), and from there on it is the search from the start but for the steps it has
counted. What a search does not look at is how many steps it has taken, so both come to the same end.
-/

namespace DominoTiling.Search

/-- The state after so many steps that have changed nothing else. -/
def Progress.skip (s : Progress) (n : Nat) : Progress := { s with nodes := s.nodes + n }

namespace Progress
variable {s : Progress} {m n : Nat}

@[simp] theorem skip_zero : s.skip 0 = s := rfl

@[simp] theorem placement_skip : (s.skip n).placement = s.placement := rfl

@[simp] theorem skip_skip : (s.skip m).skip n = s.skip (m + n) := by
  simp [skip, Nat.add_assoc]

@[simp] theorem enter_skip : (s.skip n).enter = s.skip (n + 1) := rfl

theorem alike_skip : (s.skip n).Alike s := ⟨rfl, rfl⟩

end Progress

section
variable {b : Board} {cs : List Candidate} {x y : Nat} {s : Progress}

theorem run_skip_cells (hx : x < b.rows) (hy : y ≤ b.cols)
    (hset : ∀ k < y, s.placement.isSet x k = .ok true) :
    run b cs never x 0 s = run b cs never x y (s.skip y) := by
  induction y with
  | zero => rfl
  | succ y ih =>
    have hcovered : (s.skip y).placement.isSet x y = .ok true := hset y (Nat.lt_succ_self y)
    rw [ih (Nat.le_of_succ_le hy) fun k hk => hset k (Nat.lt_succ_of_lt hk),
      run_covered rfl hy hx hcovered, Progress.enter_skip]

theorem run_skip_row (hx : x < b.rows) (hword : x + 1 < 2 ^ 64)
    (hset : ∀ k < b.cols, s.placement.isSet x k = .ok true) :
    run b cs never x 0 s = run b cs never (x + 1) 0 (s.skip (b.cols + 1)) := by
  rw [run_skip_cells hx (Nat.le_refl _) hset, run_rowEnd rfl (Nat.le_refl _) hword,
    Progress.enter_skip]

theorem run_skip_rows (hx : x ≤ b.rows) (hword : b.rows < 2 ^ 64)
    (hset : ∀ i < x, ∀ k < b.cols, s.placement.isSet i k = .ok true) :
    run b cs never 0 0 s = run b cs never x 0 (s.skip (x * (b.cols + 1))) := by
  induction x with
  | zero => simp
  | succ x ih =>
    have hrow : ∀ k < b.cols, (s.skip (x * (b.cols + 1))).placement.isSet x k = .ok true :=
      hset x (Nat.lt_succ_self x)
    rw [ih (Nat.le_of_succ_le hx) fun i hi => hset i (Nat.lt_succ_of_lt hi),
      run_skip_row hx (Nat.lt_of_le_of_lt hx hword) hrow, Progress.skip_skip, Nat.succ_mul]

/-- A cell of the board or the end of a row, or the first cell behind the last row. -/
def IsStart (b : Board) (x y : Nat) : Prop := x < b.rows ∧ y ≤ b.cols ∨ x = b.rows ∧ y = 0

def CoveredBefore (b : Board) (p : Placement) (x y : Nat) : Prop :=
  ∀ c : Nat × Nat, c.1 < b.rows → c.2 < b.cols → ¬ FromOn x y c → ∃ i, p.at? c = some (some i)

theorem run_skip (hp : s.placement.HasShape b) (hcols : 1 ≤ b.cols) (hstart : IsStart b x y)
    (hset : CoveredBefore b s.placement x y) :
    run b cs never 0 0 s = run b cs never x y (s.skip (x * (b.cols + 1) + y)) := by
  have hcovered : ∀ i k, i < b.rows → k < b.cols → ¬ FromOn x y (i, k) →
      s.placement.isSet i k = .ok true := by
    intro i k hi hk hbefore
    exact (Placement.isSet_true_iff (hp.1 ▸ hi) (hp.2 ▸ hk)).2 (hset (i, k) hi hk hbefore)
  have hword : b.rows < 2 ^ 64 := Grid.rows_lt_word (y := 0) hcols
  have hrows : run b cs never 0 0 s = run b cs never x 0 (s.skip (x * (b.cols + 1))) := by
    refine run_skip_rows (by unfold IsStart at hstart; omega) hword ?_
    intro i hi k hk
    refine hcovered i k (by unfold IsStart at hstart; omega) hk ?_
    unfold FromOn
    omega
  rw [hrows]
  rcases hstart with ⟨hx, hy⟩ | ⟨-, rfl⟩
  · rw [run_skip_cells hx hy, Progress.skip_skip]
    intro k hk
    refine hcovered x k hx (Nat.lt_of_lt_of_le hk hy) ?_
    unfold FromOn
    omega
  · rfl

end

/-- Where every cell before the start is covered, the search from the start and the one from the top
left cell give the same answer, take back as many dominoes and leave the same placement. The latter
counts one more step for each cell before the start and for each row end between them. -/
theorem solveFrom_skips {b : Board} {ds : List Domino} {p : Placement} {x y : Nat}
    (hp : p.HasShape b) (hcols : 1 ≤ b.cols) (hstart : IsStart b x y)
    (hset : CoveredBefore b p x y) (hsteps : StepsFit b ds p 0 0) :
    ∃ v, solveFrom b p ds x y = .ok v ∧
      solveFrom b p ds 0 0 = .ok { v with nodes := v.nodes + (x * (b.cols + 1) + y) } := by
  have hreturns : ∃ solved s, run b (candidates ds) never 0 0 (.start p ds.length) =
      .ok (solved, s) := exists_run hcols (Progress.sized_start hp) (.inl (by decide))
  obtain ⟨solved, s, hrun⟩ := hreturns
  have hfits := hsteps solved s hrun
  have hsolve := solveFrom_of_run hp hrun
  rw [run_skip hp hcols hstart hset] at hrun
  obtain ⟨u, hout, halike, hwork⟩ := (run_eq_ok_iff.1 hrun).exists_alike Progress.alike_skip.symm
  have hnodes : u.nodes + (0 + (x * (b.cols + 1) + y)) = 0 + s.nodes := hwork.nodes
  have hbacktracks : u.backtracks + 0 = 0 + s.backtracks := hwork.backtracks
  refine ⟨_, (solveFrom_of_run hp (run_eq_ok_iff.2 hout)).trans (if_pos (by omega)), ?_⟩
  rw [hsolve, if_pos hfits, halike.placement, show s.backtracks = u.backtracks by omega,
    show s.nodes = u.nodes + (x * (b.cols + 1) + y) by omega]

/-- Behind a covered row the search takes ten steps and one domino back. -/
theorem solveFrom_skips_second_row :
    ∃ v, solveFrom ⟨3, 2, #[9, 9, 0, 1, 0, 1], rfl, by decide⟩
        ⟨3, 2, #[some 5, some 5, none, none, none, none], rfl, by decide⟩
        [⟨0, 1⟩, ⟨0, 0⟩, ⟨1, 1⟩] 1 0 = .ok v ∧ v.solved = true ∧ v.nodes = 10 ∧ v.backtracks = 1 := by
  have h : solveFrom ⟨3, 2, #[9, 9, 0, 1, 0, 1], rfl, by decide⟩
      ⟨3, 2, #[some 5, some 5, none, none, none, none], rfl, by decide⟩
      [⟨0, 1⟩, ⟨0, 0⟩, ⟨1, 1⟩] 0 0 =
      .ok ⟨true, ⟨3, 2, #[some 5, some 5, some 1, some 2, some 1, some 2], rfl, by decide⟩, 3, 13,
        1⟩ := by
    cbv
  have hset : CoveredBefore ⟨3, 2, #[9, 9, 0, 1, 0, 1], rfl, by decide⟩
      ⟨3, 2, #[some 5, some 5, none, none, none, none], rfl, by decide⟩ 1 0 := by
    rintro ⟨i, k⟩ - hk hbefore
    obtain rfl : i = 0 := by
      unfold FromOn at hbefore
      omega
    dsimp only at hk
    rcases (show k = 0 ∨ k = 1 by omega) with rfl | rfl
    · exact ⟨5, rfl⟩
    · exact ⟨5, rfl⟩
  obtain ⟨v, hv, hv₀⟩ := solveFrom_skips ⟨rfl, rfl⟩ (by decide) (.inl ⟨by decide, by decide⟩) hset
    (stepsFit_of_solveFrom h)
  have heq := Except.ok.inj (hv₀.symm.trans h)
  have hnodes : v.nodes + 3 = 13 := congrArg Verdict.nodes heq
  refine ⟨v, hv, congrArg Verdict.solved heq, by omega, congrArg Verdict.backtracks heq⟩

end DominoTiling.Search
