import DominoTiling.Proofs.Branches
import DominoTiling.Proofs.Counters

/-!
# The first branch with a cover

An undivided search tries the candidates at the top left cell in one placement and takes each back
that fails. What it takes back leaves nothing behind but the counters, and these do not steer it, so
behind each candidate it does what the search of that branch does on a placement of its own
(`exists_branch`). Hence it fails in the branches up to the first that has a cover, and ends with
the cover of that one (`firstFound_of_run`). `firstCover` does the same (`firstCover_eq`), and no
branch takes more steps than the undivided search.
-/

namespace DominoTiling.Search
variable {b : Board} {p : Placement} {ds : List Domino} {cs : List Candidate} {c : Candidate}
  {s s₁ s₂ : Progress} {r : Bool} {limit : Nat}

/-- The branches fail one after the other up to the first with a cover, if there is one, each in at
most so many steps. -/
inductive FirstFound (b : Board) (ds : List Domino) (limit : Nat) :
    List Candidate → Option Placement → Prop
  | none : FirstFound b ds limit [] none
  | found {c : Candidate} {cs : List Candidate} {s₀ s : Progress}
      (hstart : branchStart b ds c = .ok s₀)
      (hrun : run b (candidates ds) never 0 1 s₀ = .ok (true, s)) (hnodes : s.nodes ≤ limit) :
      FirstFound b ds limit (c :: cs) (some s.placement)
  | failed {c : Candidate} {cs : List Candidate} {s₀ s : Progress} {answer : Option Placement}
      (hstart : branchStart b ds c = .ok s₀)
      (hrun : run b (candidates ds) never 0 1 s₀ = .ok (false, s)) (hnodes : s.nodes ≤ limit)
      (rest : FirstFound b ds limit cs answer) : FirstFound b ds limit (c :: cs) answer

theorem runBranch_eq {s₀ : Progress} (hstart : branchStart b ds c = .ok s₀)
    (hrun : run b (candidates ds) never 0 1 s₀ = .ok (r, s)) (hnodes : s.nodes < 2 ^ 64) :
    runBranch b ds never c = .ok (if r then some s.placement else none) := by
  have hnever : ¬ never 0 = true := Bool.false_ne_true
  rw [runBranch, if_neg hnever]
  exact bind_eq_ok_iff.2 ⟨s₀, hstart, bind_eq_ok_iff.2 ⟨(r, s), hrun,
    bind_eq_ok_iff.2 ⟨s.nodes, word_of_lt hnodes, rfl⟩⟩⟩

theorem firstCover_eq {answer : Option Placement} (h : FirstFound b ds limit cs answer)
    (hlimit : limit < 2 ^ 64) : firstCover b ds cs = .ok answer := by
  induction h with
  | none => rfl
  | found hstart hrun hnodes =>
    rw [firstCover, runBranch_eq hstart hrun (Nat.lt_of_le_of_lt hnodes hlimit)]
    rfl
  | failed hstart hrun hnodes _ ih =>
    rw [firstCover, runBranch_eq hstart hrun (Nat.lt_of_le_of_lt hnodes hlimit)]
    exact ih

/-! ### The undivided search -/

theorem opens_iff_admits (hc : c ∈ candidates ds) :
    Opens b p c ↔ (Progress.start p ds.length).admits b c 0 0 = .ok true := by
  rw [Progress.admits_eq_true_iff]
  refine (and_iff_right (IndexSet.contains_empty ?_)).symm
  exact index_lt_of_mem hc

/-- Behind a candidate, the undivided search does what the search of its branch does. -/
theorem exists_branch (hp : Placement.forBoard b = .ok p) (hs : s.Alike (.start p ds.length))
    (hlay : s.place c 0 0 = .ok s₁)
    (h : Outcome b (candidates ds) never (.cover 0 1) s₁ r s₂) :
    ∃ s₀ u, branchStart b ds c = .ok s₀ ∧ run b (candidates ds) never 0 1 s₀ = .ok (r, u) ∧
      u.placement = s₂.placement ∧ u.nodes ≤ s₂.nodes := by
  obtain ⟨s₀, hlay₀, halike₀, hwork₀⟩ := hs.symm.exists_place hlay
  obtain ⟨u, hout, halike, hwork⟩ := h.exists_alike halike₀
  refine ⟨s₀, u, ?_, run_eq_ok_iff.2 hout, halike.placement, ?_⟩
  · rw [branchStart, hp]
    exact hlay₀
  · have hzero : (Progress.start p ds.length).nodes = 0 := rfl
    have hnodes₀ := hwork₀.nodes
    have hnodes := hwork.nodes
    omega

/-- The candidates that do not open are refused, the others are the branches. -/
theorem firstFound_of_attempt {s' : Progress} (hp : Placement.forBoard b = .ok p)
    (hs : s.Alike (.start p ds.length)) (hcs : ∀ c ∈ cs, c ∈ candidates ds)
    (h : Outcome b (candidates ds) never (.attempt 0 0 cs) s r s') (hlimit : s'.nodes ≤ limit) :
    FirstFound b ds limit (cs.filter (Opens b p)) (if r then some s'.placement else none) := by
  induction cs generalizing s with
  | nil =>
    cases h
    exact .none
  | cons c cs ih =>
    have hc := hcs c (List.mem_cons_self ..)
    have hcs : ∀ c ∈ cs, c ∈ candidates ds := fun c hc => hcs c (List.mem_cons_of_mem _ hc)
    cases h with
    | refused hadm next =>
      have hshut : ¬ Opens b p c := by
        rw [opens_iff_admits hc, hs.symm.admits hadm]
        intro h
        cases h
      rw [List.filter_cons_of_neg (by rwa [decide_eq_true_iff])]
      exact ih hs hcs next
    | found hadm hlay onward =>
      have hopen := (opens_iff_admits hc).2 (hs.symm.admits hadm)
      obtain ⟨s₀, u, hstart, hrun, hplacement, hnodes⟩ := exists_branch hp hs hlay onward
      rw [List.filter_cons_of_pos (by rwa [decide_eq_true_iff]), if_pos rfl, ← hplacement]
      exact .found hstart hrun (Nat.le_trans hnodes hlimit)
    | undone hadm hlay onward hback next =>
      have hopen := (opens_iff_admits hc).2 (hs.symm.admits hadm)
      obtain ⟨s₀, u, hstart, hrun, -, hnodes⟩ := exists_branch hp hs hlay onward
      have hnext := next.nodes_le
      have hrestored := Progress.takeBack_place hadm hlay (onward.restores rfl) hback
      obtain ⟨_, _, _, -, -, -, rfl⟩ := Progress.takeBack_eq_ok hback
      rw [List.filter_cons_of_pos (by rwa [decide_eq_true_iff])]
      exact .failed hstart hrun (Nat.le_trans hnodes (Nat.le_trans hnext hlimit))
        (ih (hrestored.trans hs) hcs next)

/-- An undivided search of a board ends with what the first branch with a cover ends with. -/
theorem firstFound_of_run (hrows : 1 ≤ b.rows) (hcols : 1 ≤ b.cols)
    (hp : Placement.forBoard b = .ok p)
    (h : run b (candidates ds) never 0 0 (.start p ds.length) = .ok (r, s)) :
    FirstFound b ds s.nodes ((candidates ds).filter (Opens b p))
      (if r then some s.placement else none) := by
  obtain ⟨hshape, hat⟩ := Placement.at?_forBoard hp
  have hempty : p.isSet 0 0 = .ok false :=
    (Placement.isSet_false_iff (hshape.1 ▸ hrows) (hshape.2 ▸ hcols)).2
      ((hat _).trans (if_pos ⟨hrows, hcols⟩))
  rw [run_empty rfl hcols hrows hempty] at h
  exact firstFound_of_attempt hp (.enter _) (fun _ hc => hc)
    (Outcome.of_tryCandidates Outcome.of_run h) (Nat.le_refl _)

end DominoTiling.Search
