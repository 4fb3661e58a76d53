import DominoTiling.Proofs.FirstBranch
import DominoTiling.Proofs.Pool

/-!
# A single worker

A single worker takes the branches in their order, goes on with one until it has answered, and reads
the flag as it stands, having raised it itself (`Pool.Turn`). How far it has come is told by
`Ordered`: branches that failed, then at most one that is being searched, then those not taken up,
and behind a branch that has raised the flag only branches that were never searched. So it answers
what the first branch with a cover answers (`Ordered.answer_eq`), and it does come to that answer
(`exists_turns`), which is the answer of the undivided search.
-/

namespace DominoTiling.Search
variable {b : Board} {ds : List Domino} {c : Candidate} {st : BranchState}
  {es pre post : List (Candidate × BranchState)} {flag : Bool} {workers limit : Nat}

def BranchState.isAnswered : BranchState → Bool
  | answered _ => true
  | _ => false

/-- A turn of a single worker: all branches before the one that moves have answered, and the flag
reads as it stands. -/
def Pool.Turn (b : Board) (ds : List Domino) (workers : Nat) (q q' : Pool) : Prop :=
  ∃ k, (∀ e ∈ q.branches.take k, e.2.isAnswered = true) ∧ q.step b ds workers k q.flag = some q'

/-- What a single worker may answer. -/
def OneWorkerAnswer (b : Board) (ds : List Domino) (workers : Nat) (answer : Option Placement) :
    Prop :=
  ∃ cs q, branches b ds = .ok cs ∧
    Relation.ReflTransGen (Pool.Turn b ds workers) (.start cs) q ∧ q.Answers answer

/-- The turns of a single worker are turns that workers may take. -/
theorem OneWorkerAnswer.parallelAnswer {answer : Option Placement}
    (h : OneWorkerAnswer b ds workers answer) : ParallelAnswer b ds workers answer := by
  obtain ⟨cs, q, hcs, hturns, hanswer⟩ := h
  have hschedule : ∃ schedule, (Pool.start cs).run b ds workers schedule = some q := by
    clear hanswer
    induction hturns with
    | refl => exact ⟨[], rfl⟩
    | @tail q q' _ hturn ih =>
      obtain ⟨schedule, hrun⟩ := ih
      obtain ⟨k, -, hstep⟩ := hturn
      refine ⟨schedule ++ [(k, q.flag)], ?_⟩
      unfold Pool.run at hrun ⊢
      rw [List.foldlM_append, hrun]
      simp only [bind, Option.bind, List.foldlM_cons, hstep]
      rfl
  obtain ⟨schedule, hrun⟩ := hschedule
  exact ⟨cs, schedule, q, hcs, hrun, hanswer⟩

/-! ### How far a single worker has come -/

/-- The search of the branch, which nothing calls off, ends with this cover. -/
def BranchCovers (b : Board) (ds : List Domino) (c : Candidate) (p : Placement) : Prop :=
  ∃ s₀ s, branchStart b ds c = .ok s₀ ∧ run b (candidates ds) never 0 1 s₀ = .ok (true, s) ∧
    s.placement = p

/-- The branch has neither answered nor raised the flag. -/
def BranchState.Working (b : Board) (ds : List Domino) (c : Candidate) : BranchState → Prop
  | waiting => True
  | searching m => OnTheWay b ds c never m
  | covered p => BranchCovers b ds c p
  | failed _ => True
  | signalled _ => False
  | answered _ => False

theorem BranchState.Working.isAnswered (h : st.Working b ds c) : st.isAnswered = false := by
  cases st with
  | answered a => cases h
  | waiting | searching | covered | signalled | failed => rfl

/-- The branches by what has become of them. -/
inductive Ordered (b : Board) (ds : List Domino) : Bool → List (Candidate × BranchState) → Prop
  | done : Ordered b ds false []
  | failed {flag : Bool} {c : Candidate} {es : List (Candidate × BranchState)}
      (hc : BranchFailed b ds c) (rest : Ordered b ds flag es) :
      Ordered b ds flag ((c, .answered none) :: es)
  | working {c : Candidate} {st : BranchState} {es : List (Candidate × BranchState)}
      (hst : st.Working b ds c) (hes : ∀ e ∈ es, e.2 = .waiting) : Ordered b ds false ((c, st) :: es)
  | signalled {c : Candidate} {p : Placement} {es : List (Candidate × BranchState)}
      (hc : BranchCovers b ds c p) (hes : ∀ e ∈ es, e.2 = .waiting) :
      Ordered b ds true ((c, .signalled p) :: es)
  | answered {c : Candidate} {p : Placement} {es : List (Candidate × BranchState)}
      (hc : BranchCovers b ds c p) (hes : ∀ e ∈ es, e.2 = .waiting ∨ e.2 = .answered none) :
      Ordered b ds true ((c, .answered (some p)) :: es)

namespace Ordered

theorem of_waiting (h : ∀ e ∈ es, e.2 = .waiting) : Ordered b ds false es := by
  cases es with
  | nil => exact .done
  | cons e es =>
    obtain ⟨c, st⟩ := e
    obtain rfl : st = .waiting := h _ (List.mem_cons_self ..)
    exact .working trivial fun e he => h e (List.mem_cons_of_mem _ he)

/-- The branch in work moves. -/
theorem step_working (hst : st.Working b ds c) (hes : ∀ e ∈ es, e.2 = .waiting) :
    Ordered b ds st.raises ((c, st.step b ds c false) :: es) := by
  cases st with
  | waiting =>
    cases hstart : branchStart b ds c with
    | ok s₀ =>
      have hstep : BranchState.step b ds c false .waiting = .searching ⟨.enter 0 1, [], s₀⟩ := by
        simp only [BranchState.step, Bool.false_eq_true, ↓reduceIte, hstart]
      rw [hstep]
      exact .working (OnTheWay.start hstart) hes
    | error f =>
      have hstep : BranchState.step b ds c false .waiting = .failed f := by
        simp only [BranchState.step, Bool.false_eq_true, ↓reduceIte, hstart]
      rw [hstep]
      exact .working trivial hes
  | searching m =>
    simp only [BranchState.step]
    split
    · rename_i hm
      obtain ⟨s₀, hstart, hrun⟩ := OnTheWay.run_of_result? hst hm
      exact .working ⟨s₀, m.progress, hstart, hrun, rfl⟩ hes
    · rename_i hm
      obtain ⟨s₀, hstart, hrun⟩ := OnTheWay.run_of_result? hst hm
      exact .failed ⟨s₀, m.progress, hstart, hrun⟩ (.of_waiting hes)
    · split
      · rename_i m' hstep
        have hway := OnTheWay.step hst hstep
        have hnever : (fun n => if n = m.progress.nodes + 1 then false else never n) = never := by
          funext n
          exact ite_self _
        rw [hnever] at hway
        exact .working hway hes
      · exact .working trivial hes
  | covered p => exact .signalled hst hes
  | failed f => exact .working trivial hes
  | signalled p => cases hst
  | answered a => cases hst

theorem step {k : Nat} (h : Ordered b ds flag es) (hk : es[k]? = some (c, st))
    (hbefore : ∀ e ∈ es.take k, e.2.isAnswered = true) :
    Ordered b ds (flag || st.raises) (es.set k (c, st.step b ds c flag)) := by
  induction h generalizing k with
  | done => simp at hk
  | @failed flag c' es hc rest ih =>
    cases k with
    | zero =>
      obtain ⟨rfl, rfl⟩ := Prod.mk.inj (Option.some.inj hk)
      rw [show (flag || BranchState.raises (.answered none)) = flag from Bool.or_false flag]
      exact .failed hc rest
    | succ k => exact .failed hc (ih hk fun e he => hbefore e (List.mem_cons_of_mem _ he))
  | working hst hes =>
    cases k with
    | zero =>
      obtain ⟨rfl, rfl⟩ := Prod.mk.inj (Option.some.inj hk)
      exact step_working hst hes
    | succ k =>
      have hanswered := hbefore _ (List.mem_cons_self ..)
      rw [hst.isAnswered] at hanswered
      cases hanswered
  | signalled hc hes =>
    cases k with
    | zero =>
      obtain ⟨rfl, rfl⟩ := Prod.mk.inj (Option.some.inj hk)
      exact .answered hc fun e he => .inl (hes e he)
    | succ k => cases hbefore _ (List.mem_cons_self ..)
  | answered hc hes =>
    cases k with
    | zero =>
      obtain ⟨rfl, rfl⟩ := Prod.mk.inj (Option.some.inj hk)
      exact .answered hc hes
    | succ k =>
      -- a branch that has not been taken up sees the flag
      refine .answered hc fun e he => ?_
      rcases List.mem_or_eq_of_mem_set he with he | rfl
      · exact hes e he
      · rcases hes _ (List.mem_of_getElem? hk) with hw | ha
        · obtain rfl : st = .waiting := hw
          exact .inr rfl
        · obtain rfl : st = .answered none := ha
          exact .inr rfl

theorem of_turns {cs : List Candidate} {q : Pool}
    (h : Relation.ReflTransGen (Pool.Turn b ds workers) (.start cs) q) :
    Ordered b ds q.flag q.branches ∧ q.branches.map Prod.fst = cs := by
  induction h with
  | refl =>
    refine ⟨of_waiting fun e he => ?_, by simp [Pool.start, Function.comp_def]⟩
    obtain ⟨c, -, rfl⟩ := List.mem_map.1 he
    rfl
  | tail _ hturn ih =>
    obtain ⟨k, hbefore, hstep⟩ := hturn
    obtain ⟨c, st, hk, -, rfl⟩ := Pool.step_eq_some hstep
    exact ⟨ih.1.step hk hbefore, (Pool.map_fst_set hk).trans ih.2⟩

/-- What a single worker answers is what the first branch with a cover answers. -/
theorem answer_eq {answer answer' : Option Placement} (h : Ordered b ds flag es)
    (hfirst : FirstFound b ds limit (es.map Prod.fst) answer)
    (hanswer : Pool.Answers ⟨flag, es⟩ answer') : answer' = answer := by
  induction h with
  | done =>
    cases hfirst
    cases hanswer with
    | cover he => cases he
    | none => rfl
  | failed hc _ ih =>
    obtain ⟨s₀, s, hstart, hrun⟩ := hc
    cases hfirst with
    | found hstart' hrun' _ =>
      obtain rfl := Except.ok.inj (hstart.symm.trans hstart')
      cases hrun.symm.trans hrun'
    | failed _ _ _ rest =>
      refine ih rest ?_
      cases hanswer with
      | cover he =>
        rcases List.mem_cons.1 he with heq | he
        · cases heq
        · exact .cover he
      | none hall => exact .none fun e he => hall e (List.mem_cons_of_mem _ he)
  | working hst hes =>
    have hhead := hst.isAnswered
    cases hanswer with
    | cover he =>
      rcases List.mem_cons.1 he with heq | he
      · rw [← (Prod.mk.inj heq).2] at hhead
        cases hhead
      · cases hes _ he
    | none hall =>
      obtain rfl := hall _ (List.mem_cons_self ..)
      cases hhead
  | signalled _ hes =>
    cases hanswer with
    | cover he =>
      rcases List.mem_cons.1 he with heq | he
      · cases heq
      · cases hes _ he
    | none hall => cases hall _ (List.mem_cons_self ..)
  | answered hc hes =>
    obtain ⟨s₀, s, hstart, hrun, rfl⟩ := hc
    cases hanswer with
    | cover he =>
      rcases List.mem_cons.1 he with heq | he
      · cases heq
        cases hfirst with
        | found hstart' hrun' _ =>
          obtain rfl := Except.ok.inj (hstart.symm.trans hstart')
          cases hrun.symm.trans hrun'
          rfl
        | failed hstart' hrun' _ _ =>
          obtain rfl := Except.ok.inj (hstart.symm.trans hstart')
          cases hrun.symm.trans hrun'
      · rcases hes _ he with hw | ha
        · cases hw
        · cases ha
    | none hall => cases hall _ (List.mem_cons_self ..)

end Ordered

/-! ### The worker comes to its answer -/

/-- A turn of the first branch that has not answered. -/
theorem turn_of_append (c : Candidate) (st : BranchState) (flag : Bool)
    (hpre : ∀ e ∈ pre, e.2.isAnswered = true) (hpost : ∀ e ∈ post, e.2 = .waiting) :
    Pool.Turn b ds workers ⟨flag, pre ++ (c, st) :: post⟩
      ⟨flag || st.raises, pre ++ (c, st.step b ds c flag) :: post⟩ := by
  have hat : (pre ++ (c, st) :: post)[pre.length]? = some (c, st) := by
    rw [List.getElem?_append_right (Nat.le_refl _), Nat.sub_self]
    rfl
  have hset : (pre ++ (c, st) :: post).set pre.length (c, st.step b ds c flag) =
      pre ++ (c, st.step b ds c flag) :: post := by
    rw [List.set_append_right _ _ (Nat.le_refl _), Nat.sub_self]
    rfl
  -- a branch that waits finds the worker free
  have hfree : (st.isWaiting &&
      decide (max workers 1 ≤ Pool.active ⟨flag, pre ++ (c, st) :: post⟩)) = false := by
    cases hw : st.isWaiting with
    | false => rfl
    | true =>
      have hactive : Pool.active ⟨flag, pre ++ (c, st) :: post⟩ = 0 := by
        refine List.countP_eq_zero.2 fun e he => ?_
        rcases List.mem_append.1 he with he | he
        · have hanswered := hpre e he
          cases hst : e.2 with
          | answered a => simp [BranchState.isActive]
          | waiting | searching | covered | signalled | failed =>
            rw [hst] at hanswered
            cases hanswered
        · rcases List.mem_cons.1 he with rfl | he
          · cases st with
            | waiting => simp [BranchState.isActive]
            | searching | covered | signalled | answered | failed => cases hw
          · simp [hpost e he, BranchState.isActive]
      rw [hactive, Bool.true_and, decide_eq_false_iff_not]
      omega
  refine ⟨pre.length, fun e he => ?_, ?_⟩
  · rw [List.take_left] at he
    exact hpre e he
  · simp only [Pool.step, hat, hfree, Bool.and_not_self, Bool.false_eq_true, ↓reduceIte, hset]

theorem turns_of_reaches {m m' : Machine} (hpre : ∀ e ∈ pre, e.2.isAnswered = true)
    (hpost : ∀ e ∈ post, e.2 = .waiting)
    (h : Relation.ReflTransGen (Machine.Goes b (candidates ds)) m m') :
    Relation.ReflTransGen (Pool.Turn b ds workers) ⟨false, pre ++ (c, .searching m) :: post⟩
      ⟨false, pre ++ (c, .searching m') :: post⟩ := by
  induction h with
  | refl => exact .refl
  | @tail m₁ m₂ _ hgoes ih =>
    have hstep : BranchState.step b ds c false (.searching m₁) = .searching m₂ := by
      simp only [BranchState.step, hgoes.1, hgoes.2.step]
    have hturn : Pool.Turn b ds workers _ _ := turn_of_append c (.searching m₁) false hpre hpost
    rw [hstep] at hturn
    exact ih.tail hturn

/-- The worker searches a branch to its end. -/
theorem turns_of_run {r : Bool} {s₀ s : Progress} (hpre : ∀ e ∈ pre, e.2.isAnswered = true)
    (hpost : ∀ e ∈ post, e.2 = .waiting) (hstart : branchStart b ds c = .ok s₀)
    (hrun : run b (candidates ds) never 0 1 s₀ = .ok (r, s)) :
    Relation.ReflTransGen (Pool.Turn b ds workers) ⟨false, pre ++ (c, .waiting) :: post⟩
      ⟨false, pre ++ (c, if r then .covered s.placement else .answered none) :: post⟩ := by
  have hbegin : BranchState.step b ds c false .waiting = .searching ⟨.enter 0 1, [], s₀⟩ := by
    simp only [BranchState.step, Bool.false_eq_true, ↓reduceIte, hstart]
  have hfirst : Pool.Turn b ds workers _ _ := turn_of_append c .waiting false hpre hpost
  rw [hbegin] at hfirst
  have hlast : Pool.Turn b ds workers _ _ :=
    turn_of_append c (.searching ⟨.leave r, [], s⟩) false hpre hpost
  refine .head hfirst (.tail (turns_of_reaches hpre hpost ((Outcome.of_run hrun).reaches [])) ?_)
  cases r <;> exact hlast

theorem exists_turns {cs : List Candidate} {answer : Option Placement}
    (h : FirstFound b ds limit cs answer) (hpre : ∀ e ∈ pre, e.2 = .answered none) :
    ∃ q, Relation.ReflTransGen (Pool.Turn b ds workers)
      ⟨false, pre ++ cs.map fun c => (c, .waiting)⟩ q ∧ q.Answers answer := by
  have hanswered : ∀ pre : List (Candidate × BranchState), (∀ e ∈ pre, e.2 = .answered none) →
      ∀ e ∈ pre, e.2.isAnswered = true := fun pre hpre e he => by rw [hpre e he]; rfl
  have hwaiting : ∀ cs : List Candidate, ∀ e ∈ cs.map fun c => (c, BranchState.waiting),
      e.2 = .waiting := fun cs e he => by
    obtain ⟨c, -, rfl⟩ := List.mem_map.1 he
    rfl
  induction h generalizing pre with
  | none => exact ⟨_, .refl, .none fun e he => hpre e (by simpa using he)⟩
  | @found c cs s₀ s hstart hrun _ =>
    have hraised : Pool.Turn b ds workers _ _ :=
      turn_of_append c (.covered s.placement) false (hanswered pre hpre) (hwaiting cs)
    have hdone : Pool.Turn b ds workers _ _ :=
      turn_of_append c (.signalled s.placement) true (hanswered pre hpre) (hwaiting cs)
    exact ⟨_, .tail (.tail (turns_of_run (hanswered pre hpre) (hwaiting cs) hstart hrun) hraised) hdone,
      .cover (List.mem_append_right _ (List.mem_cons_self ..))⟩
  | @failed c cs s₀ s answer hstart hrun _ _ ih =>
    have hpre' : ∀ e ∈ pre ++ [(c, BranchState.answered none)], e.2 = .answered none := by
      intro e he
      rcases List.mem_append.1 he with he | he
      · exact hpre e he
      · rw [List.mem_singleton.1 he]
    obtain ⟨q, hrest, hq⟩ := ih hpre'
    rw [← List.append_cons] at hrest
    exact ⟨q, (turns_of_run (hanswered pre hpre) (hwaiting cs) hstart hrun).trans hrest, hq⟩

/-- A single worker answers what the first branch with a cover answers, and nothing else. -/
theorem oneWorkerAnswer_iff {cs : List Candidate} {answer answer' : Option Placement}
    (hcs : branches b ds = .ok cs) (h : FirstFound b ds limit cs answer) :
    OneWorkerAnswer b ds workers answer' ↔ answer' = answer := by
  constructor
  · rintro ⟨cs', q, hcs', hturns, hanswer⟩
    obtain rfl := Except.ok.inj (hcs.symm.trans hcs')
    obtain ⟨hordered, hmap⟩ := Ordered.of_turns hturns
    exact hordered.answer_eq (hmap ▸ h) hanswer
  · rintro rfl
    have hnil : ∀ e ∈ ([] : List (Candidate × BranchState)), e.2 = .answered none := by simp
    obtain ⟨q, hturns, hanswer⟩ :
        ∃ q, Relation.ReflTransGen (Pool.Turn b ds workers) (.start cs) q ∧ q.Answers answer' :=
      exists_turns h hnil
    exact ⟨cs, q, hcs, hturns, hanswer⟩

/-! ### The undivided search -/

/-- A single worker answers with the cover that the undivided search leaves on an empty placement,
and answers that there is none where that search fails. The search returns, and `firstCover` says
the same of its end. -/
theorem oneWorkerAnswer_iff_solve {p : Placement} (hrows : 1 ≤ b.rows) (hcols : 1 ≤ b.cols)
    (hp : Placement.forBoard b = .ok p) (hsteps : StepsFit b ds p 0 0) (workers : Nat) :
    (∀ q, OneWorkerAnswer b ds workers (some q) ↔
      ∃ v, solve b p ds = .ok v ∧ v.solved = true ∧ v.placement = q) ∧
    (OneWorkerAnswer b ds workers none ↔ ∃ v, solve b p ds = .ok v ∧ v.solved = false) ∧
    ∃ v, solve b p ds = .ok v ∧ (branches b ds >>= firstCover b ds) = .ok v.cover? := by
  obtain ⟨v, hv⟩ : ∃ v, solve b p ds = .ok v :=
    exists_solveFrom hcols (Placement.at?_forBoard hp).1 (.inl (by decide)) hsteps
  obtain ⟨-, s, hrun, hplacement⟩ := run_of_solveFrom hv
  have hfirst := firstFound_of_run hrows hcols hp hrun
  rw [← hplacement] at hfirst
  have hone : ∀ answer, OneWorkerAnswer b ds workers answer ↔ answer = v.cover? := fun answer =>
    oneWorkerAnswer_iff (branches_eq hp) hfirst
  refine ⟨fun q => ?_, ?_, v, hv, ?_⟩
  · rw [hone, Verdict.cover?]
    constructor
    · intro h
      split at h
      · rename_i hsolved
        exact ⟨v, hv, hsolved, (Option.some.inj h).symm⟩
      · cases h
    · rintro ⟨v', hv', hsolved, rfl⟩
      obtain rfl := Except.ok.inj (hv.symm.trans hv')
      rw [if_pos hsolved]
  · rw [hone, Verdict.cover?]
    constructor
    · intro h
      split at h
      · cases h
      · rename_i hsolved
        exact ⟨v, hv, Bool.eq_false_iff.2 hsolved⟩
    · rintro ⟨v', hv', hsolved⟩
      obtain rfl := Except.ok.inj (hv.symm.trans hv')
      rw [hsolved]
      rfl
  · rw [branches_eq hp]
    exact firstCover_eq hfirst (hsteps _ _ hrun)

/-- The second of two branches covers the board; without its last domino none does. -/
theorem oneWorkerAnswer_iff_solve_two_branches :
    OneWorkerAnswer ⟨2, 2, #[0, 1, 0, 1], rfl, by decide⟩ [⟨0, 1⟩, ⟨0, 0⟩, ⟨1, 1⟩] 1
      (some ⟨2, 2, #[some 1, some 2, some 1, some 2], rfl, by decide⟩) ∧
    OneWorkerAnswer ⟨2, 2, #[0, 1, 0, 1], rfl, by decide⟩ [⟨0, 1⟩, ⟨0, 0⟩] 0 none := by
  have hp : Placement.forBoard ⟨2, 2, #[0, 1, 0, 1], rfl, by decide⟩ =
      .ok ⟨2, 2, #[none, none, none, none], rfl, by decide⟩ := rfl
  have hcovers : run ⟨2, 2, #[0, 1, 0, 1], rfl, by decide⟩
      (candidates [⟨0, 1⟩, ⟨0, 0⟩, ⟨1, 1⟩]) never 0 0
      (.start ⟨2, 2, #[none, none, none, none], rfl, by decide⟩ 3) =
      .ok (true, ⟨⟨2, 2, #[some 1, some 2, some 1, some 2], rfl, by decide⟩, ⟨#[6#64]⟩, 10, 1⟩) := by
    cbv
  have hsolved : solve ⟨2, 2, #[0, 1, 0, 1], rfl, by decide⟩
      ⟨2, 2, #[none, none, none, none], rfl, by decide⟩ [⟨0, 1⟩, ⟨0, 0⟩, ⟨1, 1⟩] =
      .ok ⟨true, ⟨2, 2, #[some 1, some 2, some 1, some 2], rfl, by decide⟩, 3, 10, 1⟩ := by
    cbv
  have hfails : run ⟨2, 2, #[0, 1, 0, 1], rfl, by decide⟩ (candidates [⟨0, 1⟩, ⟨0, 0⟩]) never 0 0
      (.start ⟨2, 2, #[none, none, none, none], rfl, by decide⟩ 2) =
      .ok (false, ⟨⟨2, 2, #[none, none, none, none], rfl, by decide⟩, ⟨#[0#64]⟩, 5, 2⟩) := by
    cbv
  have hunsolved : solve ⟨2, 2, #[0, 1, 0, 1], rfl, by decide⟩
      ⟨2, 2, #[none, none, none, none], rfl, by decide⟩ [⟨0, 1⟩, ⟨0, 0⟩] =
      .ok ⟨false, ⟨2, 2, #[none, none, none, none], rfl, by decide⟩, 2, 5, 2⟩ := by
    cbv
  refine ⟨((oneWorkerAnswer_iff_solve (by decide) (by decide) hp (fun r s h => ?_) 1).1 _).2
      ⟨_, hsolved, rfl, rfl⟩,
    (oneWorkerAnswer_iff_solve (by decide) (by decide) hp (fun r s h => ?_) 0).2.1.2
      ⟨_, hunsolved, rfl⟩⟩
  · cases hcovers.symm.trans h
    decide
  · cases hfails.symm.trans h
    decide

end DominoTiling.Search
