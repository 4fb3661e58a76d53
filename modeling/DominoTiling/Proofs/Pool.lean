import DominoTiling.Search.Pool
import DominoTiling.Proofs.Branches
import DominoTiling.Proofs.Machine

/-!
# What workers answer

The invariant of a pool says of every branch what its state has come from, and of the flag that it
is up only if some branch holds a cover and will answer it (`Pool.Inv`). A branch that answers that
it has no cover has been searched to its end or has seen the flag up. So where every branch answers
so the flag was never up, no search was called off, and there is no exact cover: calling the others
off loses none.
-/

namespace DominoTiling.Search
variable {b : Board} {ds : List Domino}

/-- The branch has been searched, called off or not, and has left this cover. -/
def BranchFound (b : Board) (ds : List Domino) (c : Candidate) (p : Placement) : Prop :=
  ∃ s₀ raised s, branchStart b ds c = .ok s₀ ∧
    run b (candidates ds) raised 0 1 s₀ = .ok (true, s) ∧ s.placement = p

/-- The branch has been searched to its end without success. -/
def BranchFailed (b : Board) (ds : List Domino) (c : Candidate) : Prop :=
  ∃ s₀ s, branchStart b ds c = .ok s₀ ∧ run b (candidates ds) never 0 1 s₀ = .ok (false, s)

/-- The machine is on the way to the outcome of the branch, if the flag has read `raised` so far. -/
def OnTheWay (b : Board) (ds : List Domino) (c : Candidate) (raised : Nat → Bool) (m : Machine) :
    Prop :=
  ∃ s₀, branchStart b ds c = .ok s₀ ∧
    ∀ raised' : Nat → Bool, (∀ n ≤ m.progress.nodes, raised' n = raised n) →
      m.value b (candidates ds) raised' = run b (candidates ds) raised' 0 1 s₀

namespace OnTheWay
variable {c : Candidate} {raised : Nat → Bool} {m m' : Machine}

theorem start {s₀ : Progress} (h : branchStart b ds c = .ok s₀) :
    OnTheWay b ds c never ⟨.enter 0 1, [], s₀⟩ :=
  ⟨s₀, h, fun _ _ => Machine.value_enter⟩

/-- One more step, with what the flag reads at its number. -/
theorem step {read : Bool} (h : OnTheWay b ds c raised m)
    (hstep : m.step b (candidates ds) read = .ok m') :
    OnTheWay b ds c (fun n => if n = m.progress.nodes + 1 then read else raised n) m' := by
  obtain ⟨s₀, hs, hvalue⟩ := h
  have hmoves := Machine.moves_of_step hstep
  have hnodes := hmoves.nodes
  refine ⟨s₀, hs, fun raised' hagree => ?_⟩
  rw [value_of_moves hmoves fun hentered => ?_]
  · exact hvalue raised' fun n hn => (hagree n (by omega)).trans (if_neg (by omega))
  · exact (hagree _ (Nat.le_refl _)).trans (if_pos hentered)

/-- A machine that has left its outermost call has the outcome of the branch. -/
theorem run_of_result? {found : Bool} (h : OnTheWay b ds c raised m)
    (hm : m.result? = some found) :
    ∃ s₀, branchStart b ds c = .ok s₀ ∧
      run b (candidates ds) raised 0 1 s₀ = .ok (found, m.progress) := by
  obtain ⟨s₀, hs, hvalue⟩ := h
  exact ⟨s₀, hs, (hvalue raised fun _ _ => rfl).symm.trans (Machine.value_of_result? hm)⟩

end OnTheWay

namespace BranchState
variable {c : Candidate} {flag read : Bool} {st : BranchState}

/-- What the state of a branch has come from. While the flag is down, it has never been read as
raised. -/
def Inv (b : Board) (ds : List Domino) (flag : Bool) (c : Candidate) : BranchState → Prop
  | waiting => True
  | searching m => ∃ raised, (flag = false → raised = never) ∧ OnTheWay b ds c raised m
  | covered p => BranchFound b ds c p
  | signalled p => BranchFound b ds c p
  | answered (some p) => BranchFound b ds c p
  | answered none => flag = true ∨ BranchFailed b ds c
  | failed _ => True

/-- The branch has raised the flag, and answers a cover. -/
def HasSignalled : BranchState → Prop
  | signalled _ => True
  | answered (some _) => True
  | _ => False

theorem Inv.mono {flag' : Bool} (h : st.Inv b ds flag c) (hf : flag = true → flag' = true) :
    st.Inv b ds flag' c := by
  have hdown : flag' = false → flag = false := fun h' =>
    Bool.eq_false_iff.2 fun hup => Bool.eq_false_iff.1 h' (hf hup)
  cases st with
  | waiting => trivial
  | searching m =>
    obtain ⟨raised, hnever, hway⟩ := h
    exact ⟨raised, fun h' => hnever (hdown h'), hway⟩
  | covered p => exact h
  | signalled p => exact h
  | answered a =>
    cases a with
    | none => exact h.imp_left hf
    | some p => exact h
  | failed f => trivial

/-- A step keeps the invariant of its branch, if it reads the flag as raised only where it is. -/
theorem Inv.step (h : st.Inv b ds flag c) (hread : read = true → flag = true) :
    (st.step b ds c read).Inv b ds flag c := by
  cases st with
  | waiting =>
    simp only [BranchState.step]
    split
    · rename_i hr
      exact Or.inl (hread hr)
    · split
      · rename_i s₀ hs
        exact ⟨never, fun _ => rfl, .start hs⟩
      · trivial
  | searching m =>
    obtain ⟨raised, hnever, hway⟩ := h
    simp only [BranchState.step]
    split
    · rename_i hm
      obtain ⟨s₀, hs, hrun⟩ := hway.run_of_result? hm
      exact ⟨s₀, raised, m.progress, hs, hrun, rfl⟩
    · rename_i hm
      obtain ⟨s₀, hs, hrun⟩ := hway.run_of_result? hm
      cases flag with
      | true => exact Or.inl rfl
      | false =>
        rw [hnever rfl] at hrun
        exact Or.inr ⟨s₀, m.progress, hs, hrun⟩
    · split
      · rename_i m' hstep
        refine ⟨_, fun hdown => ?_, hway.step hstep⟩
        have hr : read = false := Bool.eq_false_iff.2 fun hr => Bool.eq_false_iff.1 hdown (hread hr)
        funext n
        rw [hnever hdown, hr]
        exact ite_self _
      · trivial
  | covered p => exact h
  | signalled p => exact h
  | answered a => exact h
  | failed f => trivial

theorem HasSignalled.step (h : st.HasSignalled) : (st.step b ds c read).HasSignalled := by
  cases st with
  | signalled p => trivial
  | answered a => exact h
  | waiting | searching | covered | failed => cases h

theorem hasSignalled_of_raises (h : st.raises = true) : (st.step b ds c read).HasSignalled := by
  cases st with
  | covered p => trivial
  | waiting | searching | signalled | answered | failed => cases h

end BranchState

namespace Pool
variable {cs : List Candidate} {workers : Nat} {q q' : Pool}

/-- Each branch is in a state that it can have come to, and the flag is up only if some branch has
raised it for a cover. -/
structure Inv (b : Board) (ds : List Domino) (cs : List Candidate) (q : Pool) : Prop where
  candidates : q.branches.map Prod.fst = cs
  states : ∀ e ∈ q.branches, e.2.Inv b ds q.flag e.1
  flag : q.flag = true → ∃ e ∈ q.branches, e.2.HasSignalled

theorem inv_start (cs : List Candidate) : (start cs).Inv b ds cs := by
  refine ⟨?_, fun e he => ?_, fun h => (by cases h)⟩
  · simp [start, Function.comp_def]
  · obtain ⟨c, -, rfl⟩ := List.mem_map.1 he
    trivial

theorem step_eq_some {k : Nat} {read : Bool} (h : q.step b ds workers k read = some q') :
    ∃ c st, q.branches[k]? = some (c, st) ∧ (read = true → q.flag = true) ∧
      q' = ⟨q.flag || st.raises, q.branches.set k (c, st.step b ds c read)⟩ := by
  unfold step at h
  split at h
  · cases h
  · rename_i c st hk
    split at h
    · cases h
    · rename_i hread
      split at h
      · cases h
      · cases h
        refine ⟨c, st, hk, fun hr => ?_, rfl⟩
        simpa [hr] using hread

theorem map_fst_set {l : List (Candidate × BranchState)} {k : Nat} {c : Candidate}
    {st st' : BranchState} (hk : l[k]? = some (c, st)) :
    (l.set k (c, st')).map Prod.fst = l.map Prod.fst := by
  obtain ⟨hlt, hk⟩ := List.getElem?_eq_some_iff.1 hk
  have hc : (l.map Prod.fst).get ⟨k, by simpa using hlt⟩ = c := by simp [hk]
  rw [List.map_set, ← hc]
  exact List.set_getElem_self _

theorem Inv.step {k : Nat} {read : Bool} (hinv : q.Inv b ds cs)
    (h : q.step b ds workers k read = some q') : q'.Inv b ds cs := by
  obtain ⟨c, st, hk, hread, rfl⟩ := step_eq_some h
  have hmem : (c, st) ∈ q.branches := List.mem_of_getElem? hk
  have hup : q.flag = true → (q.flag || st.raises) = true := fun hf => by rw [hf, Bool.true_or]
  refine ⟨(map_fst_set hk).trans hinv.candidates, fun e he => ?_, fun hf => ?_⟩
  · rcases List.mem_or_eq_of_mem_set he with he | rfl
    · exact (hinv.states e he).mono hup
    · exact ((hinv.states _ hmem).step hread).mono hup
  -- the branch that moves has signalled, or some branch had before and still has
  · have hnew : (c, st.step b ds c read) ∈ q.branches.set k (c, st.step b ds c read) :=
      List.mem_set (List.getElem?_eq_some_iff.1 hk).1 _
    rcases Bool.or_eq_true_iff.1 hf with hflag | hraises
    · obtain ⟨e, he, hsig⟩ := hinv.flag hflag
      obtain ⟨j, hj⟩ := List.getElem?_of_mem he
      by_cases hjk : k = j
      · subst hjk
        obtain rfl : (c, st) = e := Option.some.inj (hk.symm.trans hj)
        exact ⟨_, hnew, hsig.step⟩
      · rw [← List.getElem?_set_ne (a := (c, st.step b ds c read)) hjk] at hj
        exact ⟨e, List.mem_of_getElem? hj, hsig⟩
    · exact ⟨_, hnew, BranchState.hasSignalled_of_raises hraises⟩

/-- What every turn keeps holds after all of them. -/
theorem run_keeps {P : Pool → Prop} {schedule : List (Nat × Bool)}
    (hstep : ∀ {q q₁ : Pool} {k : Nat} {read : Bool}, P q → q.step b ds workers k read = some q₁ → P q₁)
    (hq : P q) (h : q.run b ds workers schedule = some q') : P q' := by
  induction schedule generalizing q with
  | nil =>
    cases h
    exact hq
  | cons turn schedule ih =>
    obtain ⟨q₁, hturn, h⟩ := Option.bind_eq_some_iff.1 h
    exact ih (hstep hq hturn) h

theorem Inv.run {schedule : List (Nat × Bool)} (hinv : q.Inv b ds cs)
    (h : q.run b ds workers schedule = some q') : q'.Inv b ds cs :=
  run_keeps Inv.step hinv h

end Pool

/-- Whatever turns the workers take, a cover they answer is an exact cover of the board, and they
answer that there is none only if there is none. -/
theorem parallelAnswer_exact {workers : Nat} {answer : Option Placement} (hrows : 1 ≤ b.rows)
    (hcols : 1 ≤ b.cols) (h : ParallelAnswer b ds workers answer) :
    (∀ p, answer = some p → ExactCover b ds p) ∧
      (answer = none → ¬ ∃ p, ExactCover b ds p) := by
  obtain ⟨cs, schedule, q, hcs, hrun, hanswer⟩ := h
  have hinv : q.Inv b ds cs := (Pool.inv_start cs).run hrun
  have hcand : ∀ e ∈ q.branches, e.1 ∈ cs := fun e he =>
    hinv.candidates ▸ List.mem_map_of_mem he
  cases hanswer with
  | cover he =>
    refine ⟨fun p hp => ?_, fun hn => (by cases hn)⟩
    cases hp
    obtain ⟨s₀, raised, s, hs, hrun, rfl⟩ := hinv.states _ he
    exact exactCover_of_branch hcs (hcand _ he) hs hrun
  | none hall =>
    refine ⟨fun p hp => (by cases hp), fun _ => ?_⟩
    -- a branch that has raised the flag would answer its cover
    have hdown : q.flag = false := by
      refine Bool.eq_false_iff.2 fun hup => ?_
      obtain ⟨e, he, hsig⟩ := hinv.flag hup
      rw [hall e he] at hsig
      exact hsig
    refine no_exactCover_of_branches hrows hcols hcs fun c hc => ?_
    rw [← hinv.candidates] at hc
    obtain ⟨e, he, rfl⟩ := List.mem_map.1 hc
    have hstate := hinv.states e he
    rw [hall e he, hdown] at hstate
    exact hstate.resolve_left Bool.false_ne_true

theorem parallelAnswer_exact_two_workers :
    (ParallelAnswer ⟨2, 2, #[0, 1, 0, 1], rfl, by decide⟩ [⟨0, 1⟩, ⟨0, 0⟩] 2 none ∧
      ¬ ∃ p, ExactCover ⟨2, 2, #[0, 1, 0, 1], rfl, by decide⟩ [⟨0, 1⟩, ⟨0, 0⟩] p) ∧
    ∃ p, ParallelAnswer ⟨1, 2, #[0, 1], rfl, by decide⟩ [⟨0, 1⟩, ⟨1, 0⟩] 2 (some p) ∧
      ExactCover ⟨1, 2, #[0, 1], rfl, by decide⟩ [⟨0, 1⟩, ⟨1, 0⟩] p := by
  have hnone : ParallelAnswer ⟨2, 2, #[0, 1, 0, 1], rfl, by decide⟩ [⟨0, 1⟩, ⟨0, 0⟩] 2 none := by
    -- the two workers take turns, until only the first has steps left
    refine ⟨[⟨0, ⟨0, 1⟩, .horizontal⟩, ⟨1, ⟨0, 0⟩, .vertical⟩],
      (List.replicate 8 [(0, false), (1, false)]).flatten ++ List.replicate 4 (0, false),
      ⟨false, [(⟨0, ⟨0, 1⟩, .horizontal⟩, .answered none),
        (⟨1, ⟨0, 0⟩, .vertical⟩, .answered none)]⟩, rfl, rfl, .none ?_⟩
    simp
  have hsome : ParallelAnswer ⟨1, 2, #[0, 1], rfl, by decide⟩ [⟨0, 1⟩, ⟨1, 0⟩] 2
      (some ⟨1, 2, #[some 0, some 0], rfl, by decide⟩) := by
    -- the second worker is called off by the first
    refine ⟨[⟨0, ⟨0, 1⟩, .horizontal⟩, ⟨1, ⟨1, 0⟩, .horizontal⟩],
      [(0, false), (1, false)] ++ List.replicate 8 (0, false) ++ [(1, true), (1, false)],
      ⟨true, [(⟨0, ⟨0, 1⟩, .horizontal⟩,
          .answered (some ⟨1, 2, #[some 0, some 0], rfl, by decide⟩)),
        (⟨1, ⟨1, 0⟩, .horizontal⟩, .answered none)]⟩, rfl, rfl, ?_⟩
    exact .cover (List.mem_cons_self ..)
  exact ⟨⟨hnone, (parallelAnswer_exact (by decide) (by decide) hnone).2 rfl⟩,
    _, hsome, (parallelAnswer_exact (by decide) (by decide) hsome).1 _ rfl⟩

end DominoTiling.Search
