import DominoTiling.Proofs.Pool
import DominoTiling.Proofs.Calls

/-!
# Workers come to an end

A machine cannot go on for ever, whatever the flag reads at its steps (`Machine.ends`): the calls go
from row to row and along each row, and a row number is a word. So the workers of a pool cannot take
turns for ever either (`Pool.ends`).

On a board with a column no branch is ended by a fault (`Pool.Inv.not_failed`), since its machine is on
the way to the outcome of a search that has one. Where no turn is left every branch has therefore
answered, and the pool has an answer (`Pool.Inv.exists_answer`). Whichever answer that is, it is a cover
if and only if the board has one (`Pool.Inv.isSome_iff`).
-/

namespace DominoTiling.Search
variable {b : Board} {all : List Candidate}

/-! ### Machines -/

namespace Machine

/-- Every way to go on from here comes to an end. -/
def Ends (b : Board) (all : List Candidate) (m : Machine) : Prop :=
  Acc (fun m₂ m₁ => m₁.result? = none ∧ ∃ read, Moves b all read m₁ m₂) m

variable {fs : List Frame} {x y : Nat}

theorem ends_attempt (hleave : ∀ r s, Ends b all ⟨.leave r, fs, s⟩)
    (henter : ∀ c rest s, (∀ r s, Ends b all ⟨.leave r, .trial x y c rest :: fs, s⟩) →
      Ends b all ⟨.enter x (y + 1), .trial x y c rest :: fs, s⟩)
    (cs : List Candidate) (s : Progress) : Ends b all ⟨.attempt x y cs, fs, s⟩ := by
  induction cs generalizing s with
  | nil =>
    constructor
    rintro m ⟨-, read, hmoves⟩
    cases hmoves with
    | exhausted => exact hleave false s
  | cons c cs ih =>
    constructor
    rintro m ⟨-, read, hmoves⟩
    cases hmoves with
    | refused => exact ih s
    | laid =>
      refine henter c cs _ ?_
      intro r s
      constructor
      rintro m ⟨-, read, hmoves⟩
      cases hmoves with
      | found => exact hleave true s
      | undone => exact ih _

theorem ends_enter (s : Progress) (hleave : ∀ r s, Ends b all ⟨.leave r, fs, s⟩) :
    Ends b all ⟨.enter x y, fs, s⟩ := by
  have hpass : ∀ {fs : List Frame}, (∀ r s, Ends b all ⟨.leave r, fs, s⟩) →
      ∀ r s, Ends b all ⟨.leave r, .pass :: fs, s⟩ := by
    intro fs hleave r s
    constructor
    rintro m ⟨-, read, hmoves⟩
    cases hmoves with
    | passed => exact hleave r s
  -- the induction is that of the search: the rows a word has left, and the cells of this row
  induction hk : (2 ^ 64 - x) * (b.cols + 1) + (b.cols - y) using Nat.strongRecOn
    generalizing x y s fs with
  | ind k ih =>
    subst hk
    constructor
    rintro m ⟨-, read, hmoves⟩
    cases hmoves with
    | calledOff => exact hleave false _
    | rowEnd hy hx =>
      refine ih _ ?_ _ (hpass hleave) rfl
      rw [show 2 ^ 64 - x = 2 ^ 64 - (x + 1) + 1 by omega, Nat.add_mul]
      omega
    | complete => exact hleave true _
    | covered hy => exact ih _ (by omega) _ (hpass hleave) rfl
    | empty hy => exact ends_attempt hleave (fun _ _ s hleave => ih _ (by omega) s hleave rfl) all _

theorem ends (m : Machine) : m.Ends b all := by
  have hleave : ∀ (fs : List Frame) r s, Ends b all ⟨.leave r, fs, s⟩ := by
    intro fs
    induction fs with
    | nil =>
      intro r s
      constructor
      rintro m ⟨hend, -⟩
      cases hend
    | cons f fs ih =>
      intro r s
      constructor
      rintro m ⟨-, read, hmoves⟩
      cases hmoves with
      | passed => exact ih r s
      | found => exact ih true s
      | undone => exact ends_attempt ih (fun _ _ s => ends_enter s) _ _
  obtain ⟨control, fs, s⟩ := m
  cases control with
  | enter x y => exact ends_enter s (hleave fs)
  | attempt x y cs => exact ends_attempt (hleave fs) (fun _ _ s => ends_enter s) cs s
  | leave r => exact hleave fs r s

/-- A step that stops with a fault stops the search with it. -/
theorem value_of_step_error {raised : Nat → Bool} {read : Bool} {f : Fault} {m : Machine}
    (h : m.step b all read = .error f) (hread : raised (m.progress.nodes + 1) = read) :
    m.value b all raised = .error f := by
  unfold step at h
  split at h
  · rename_i x y fs s
    split at h
    · cases h
    · rename_i hdown
      have hread : raised s.enter.nodes = false := hread.trans (Bool.eq_false_iff.2 hdown)
      simp only [value, Control.value]
      split at h
      · rename_i hy
        rcases bind_eq_error_iff.1 h with hword | ⟨_, -, h⟩
        · obtain ⟨hlast, rfl⟩ := word_eq_error_iff.1 hword
          rw [run_lastRow hread hy hlast]
          rfl
        · cases h
      · rename_i hy
        split at h
        · cases h
        · rename_i hx
          rw [run_onBoard hread (Nat.lt_of_not_le hy) (Nat.lt_of_not_le hx)]
          rcases bind_eq_error_iff.1 h with hset | ⟨v, -, h⟩
          · rw [hset]
            rfl
          · cases v <;> cases h
  · cases h
  · rename_i x y c cs fs s
    simp only [value, Control.value, tryCandidates]
    rcases bind_eq_error_iff.1 h with hadm | ⟨v, hadm, h⟩
    · rw [hadm]
      rfl
    · cases v with
      | false => cases h
      | true =>
        rcases bind_eq_error_iff.1 h with hlay | ⟨_, -, h⟩
        · rw [hadm]
          show (s.place c x y >>= _) >>= _ = _
          rw [hlay]
          rfl
        · cases h
  · cases h
  · cases h
  · cases h
  · rename_i x y c cs fs s
    rcases bind_eq_error_iff.1 h with hback | ⟨_, -, h⟩
    · show resume b all raised _ _ = _
      rw [resume, hback]
      rfl
    · cases h

end Machine

/-! ### Branches -/

section
variable {ds : List Domino} {cs : List Candidate} {c : Candidate}

theorem exists_branchStart (hcs : branches b ds = .ok cs) (hc : c ∈ cs) :
    ∃ s₀, branchStart b ds c = .ok s₀ ∧ s₀.Sized b ds := by
  obtain ⟨p, hp, hmem⟩ := mem_branches_iff hcs
  obtain ⟨hcand, hfits⟩ := (hmem c).1 hc
  have hlt := index_lt_of_mem hcand
  have hstart : (Progress.start p ds.length).Sized b ds :=
    Progress.sized_start (Placement.at?_forBoard hp).1
  obtain ⟨s₀, hlay, hs₀⟩ := hstart.exists_place hcand
    (Progress.admits_eq_true_iff.2 ⟨IndexSet.contains_empty hlt, hfits⟩)
  refine ⟨s₀, ?_, hs₀⟩
  rw [branchStart, hp]
  exact hlay

/-- A machine on the way to the outcome of a branch does not stop with a fault. -/
theorem OnTheWay.step_ne_error {raised : Nat → Bool} {m : Machine} {read : Bool} {f : Fault}
    (hcols : 1 ≤ b.cols) (hcs : branches b ds = .ok cs) (hc : c ∈ cs)
    (h : OnTheWay b ds c raised m) : m.step b (candidates ds) read ≠ .error f := by
  intro hstep
  obtain ⟨s₀, hs, hvalue⟩ := h
  obtain ⟨s₁, hs₁, hsized⟩ := exists_branchStart hcs hc
  obtain rfl := Except.ok.inj (hs.symm.trans hs₁)
  have hnext := hvalue (fun n => if n = m.progress.nodes + 1 then read else raised n)
    fun n hn => if_neg (by omega)
  rw [Machine.value_of_step_error hstep (if_pos rfl)] at hnext
  have hfirst : 0 + 1 < 2 ^ 64 ∨ 1 < b.cols := .inl (by decide)
  obtain ⟨r, s, hrun⟩ : ∃ r s, run b (candidates ds)
      (fun n => if n = m.progress.nodes + 1 then read else raised n) 0 1 s₀ = .ok (r, s) :=
    exists_run hcols hsized hfirst
  rw [hrun] at hnext
  cases hnext

end

namespace BranchState
variable {ds : List Domino} {c : Candidate} {st : BranchState}

def IsOver : BranchState → Prop
  | answered _ => True
  | failed _ => True
  | _ => False

/-- Every way to go on from here comes to an end. -/
def Ends (b : Board) (ds : List Domino) (c : Candidate) (st : BranchState) : Prop :=
  Acc (fun st₂ st₁ => ¬ st₁.IsOver ∧ ∃ read, st₂ = st₁.step b ds c read) st

theorem IsOver.ends (h : st.IsOver) : st.Ends b ds c := by
  constructor
  rintro st' ⟨hnot, -⟩
  exact absurd h hnot

theorem ends_signalled (p : Placement) : (signalled p).Ends b ds c := by
  constructor
  rintro st' ⟨-, read, rfl⟩
  exact IsOver.ends trivial

theorem ends_covered (p : Placement) : (covered p).Ends b ds c := by
  constructor
  rintro st' ⟨-, read, rfl⟩
  exact ends_signalled p

theorem ends_searching (m : Machine) : (searching m).Ends b ds c := by
  have hm : m.Ends b (candidates ds) := m.ends
  induction hm with
  | intro m _ ih =>
    constructor
    rintro st' ⟨-, read, rfl⟩
    show Ends b ds c ((searching m).step b ds c read)
    simp only [BranchState.step]
    split
    · exact ends_covered _
    · exact IsOver.ends trivial
    · rename_i hm
      split
      · rename_i m' hstep
        exact ih m' ⟨hm, read, Machine.moves_of_step hstep⟩
      · exact IsOver.ends trivial

theorem ends (st : BranchState) : st.Ends b ds c := by
  cases st with
  | waiting =>
    constructor
    rintro st' ⟨-, read, rfl⟩
    show Ends b ds c (waiting.step b ds c read)
    simp only [BranchState.step]
    split
    · exact IsOver.ends trivial
    · split
      · exact ends_searching _
      · exact IsOver.ends trivial
  | searching m => exact ends_searching m
  | covered p => exact ends_covered p
  | signalled p => exact ends_signalled p
  | answered a => exact IsOver.ends trivial
  | failed f => exact IsOver.ends trivial

/-- On a board with a column no fault ends a branch. -/
theorem Inv.step_ne_failed {cs : List Candidate} {flag read : Bool} (hcols : 1 ≤ b.cols)
    (hcs : branches b ds = .ok cs) (hc : c ∈ cs) (h : st.Inv b ds flag c)
    (hst : ∀ f, st ≠ failed f) (f : Fault) : st.step b ds c read ≠ failed f := by
  cases st with
  | waiting =>
    obtain ⟨s₀, hs, -⟩ := exists_branchStart hcs hc
    simp only [BranchState.step, hs]
    split <;> simp
  | searching m =>
    obtain ⟨raised, -, hway⟩ := h
    simp only [BranchState.step]
    split
    · simp
    · simp
    · split
      · simp
      · rename_i f' hstep
        exact absurd hstep (hway.step_ne_error hcols hcs hc)
  | covered p => simp [BranchState.step]
  | signalled p => simp [BranchState.step]
  | answered a => simp [BranchState.step]
  | failed f' => exact absurd rfl (hst f')

end BranchState

/-! ### Pools -/

/-- Where every item of a list comes to an end, replacing one item at a time does. -/
theorem acc_set {α : Type} {r : α → α → Prop} {l : List α} (h : ∀ a ∈ l, Acc r a) :
    Acc (fun l₂ l₁ : List α => ∃ (k : Nat) (a a' : α), l₁[k]? = some a ∧ r a' a ∧ l₂ = l₁.set k a') l := by
  induction l with
  | nil =>
    constructor
    rintro _ ⟨k, a, a', hk, -⟩
    simp at hk
  | cons a l ih =>
    have hl := ih fun c hc => h c (List.mem_cons_of_mem _ hc)
    have ha := h a (List.mem_cons_self ..)
    clear h ih
    induction ha generalizing l with
    | intro a _ iha =>
      induction hl with
      | intro l hl ihl =>
        constructor
        rintro _ ⟨k, c, c', hk, hr, rfl⟩
        cases k with
        | zero =>
          obtain rfl := Option.some.inj hk
          exact iha c' hr l (Acc.intro l hl)
        | succ k => exact ihl _ ⟨k, c, c', hk, hr, rfl⟩

namespace Pool
variable {ds : List Domino} {cs : List Candidate} {workers : Nat} {q q' : Pool}

/-- A branch that is not over takes a turn. -/
def Turns (b : Board) (ds : List Domino) (workers : Nat) (q q' : Pool) : Prop :=
  ∃ k c st read, q.branches[k]? = some (c, st) ∧ ¬ st.IsOver ∧
    q.step b ds workers k read = some q'

/-- The branches cannot take turns for ever. -/
theorem ends (q : Pool) : Acc (fun q₂ q₁ => q₁.Turns b ds workers q₂) q := by
  have hbranch : ∀ e : Candidate × BranchState, Acc (fun e₂ e₁ : Candidate × BranchState =>
      ¬ e₁.2.IsOver ∧ ∃ read, e₂ = (e₁.1, e₁.2.step b ds e₁.1 read)) e := by
    rintro ⟨c, st⟩
    have hst : st.Ends b ds c := st.ends
    induction hst with
    | intro st _ ih =>
      constructor
      rintro _ ⟨hst, read, rfl⟩
      exact ih _ ⟨hst, read, rfl⟩
  have hlist := InvImage.accessible Pool.branches (acc_set fun e (_ : e ∈ q.branches) => hbranch e)
  refine Subrelation.accessible ?_ hlist
  rintro q₂ q₁ ⟨k, c, st, read, hk, hst, hstep⟩
  obtain ⟨c', st', hk', -, rfl⟩ := step_eq_some hstep
  obtain ⟨rfl, rfl⟩ := Prod.mk.inj (Option.some.inj (hk.symm.trans hk'))
  exact ⟨k, (c, st), _, hk, ⟨hst, read, rfl⟩, rfl⟩

theorem exists_turns_of_free {c : Candidate} {st : BranchState} (he : (c, st) ∈ q.branches)
    (hst : ¬ st.IsOver) (hfree : st.isWaiting = true → q.active < max workers 1) :
    ∃ q', q.Turns b ds workers q' := by
  obtain ⟨k, hk⟩ := List.getElem?_of_mem he
  have hturn : ¬ (st.isWaiting && decide (max workers 1 ≤ q.active)) = true := by
    rw [Bool.and_eq_true, decide_eq_true_iff]
    exact fun h => Nat.not_le.2 (hfree h.1) h.2
  refine ⟨⟨q.flag || st.raises, q.branches.set k (c, st.step b ds c false)⟩, k, c, st, false, hk, hst, ?_⟩
  simp only [step, hk, Bool.false_and, Bool.false_eq_true, ↓reduceIte, hturn]

/-- While a branch is not over, some branch can take a turn: one that waits, or one that keeps it
waiting. -/
theorem exists_turns {c : Candidate} {st : BranchState} (he : (c, st) ∈ q.branches)
    (hst : ¬ st.IsOver) : ∃ q', q.Turns b ds workers q' := by
  by_cases hfree : q.active < max workers 1
  · exact exists_turns_of_free he hst fun _ => hfree
  · have hpos : 0 < q.active := by omega
    obtain ⟨⟨c', st'⟩, he', hactive⟩ := List.countP_pos_iff.1 hpos
    refine exists_turns_of_free he' ?_ ?_
    · cases st' <;> simp_all [BranchState.isActive, BranchState.IsOver]
    · cases st' <;> simp_all [BranchState.isActive, BranchState.isWaiting]

/-- Nothing has gone wrong. -/
structure Sound (b : Board) (ds : List Domino) (cs : List Candidate) (q : Pool) : Prop where
  inv : q.Inv b ds cs
  fine : ∀ e ∈ q.branches, ∀ f, e.2 ≠ .failed f

theorem Sound.step {k : Nat} {read : Bool} (hcols : 1 ≤ b.cols) (hcs : Search.branches b ds = .ok cs)
    (h : q.Sound b ds cs) (hstep : q.step b ds workers k read = some q') : q'.Sound b ds cs := by
  refine ⟨h.inv.step hstep, ?_⟩
  obtain ⟨c, st, hk, -, rfl⟩ := step_eq_some hstep
  have hmem : (c, st) ∈ q.branches := List.mem_of_getElem? hk
  have hc : c ∈ cs := h.inv.candidates ▸ List.mem_map_of_mem hmem
  intro e he
  rcases List.mem_or_eq_of_mem_set he with he | rfl
  · exact h.fine e he
  · exact (h.inv.states _ hmem).step_ne_failed hcols hcs hc (h.fine _ hmem)

theorem sound_of_run {schedule : List (Nat × Bool)} (hcols : 1 ≤ b.cols)
    (hcs : Search.branches b ds = .ok cs) (h : (start cs).run b ds workers schedule = some q) :
    q.Sound b ds cs := by
  refine run_keeps (fun hq hstep => hq.step hcols hcs hstep) ⟨inv_start cs, ?_⟩ h
  intro e he f
  obtain ⟨c, -, rfl⟩ := List.mem_map.1 he
  simp

/-- Where no turn is left there is an answer. -/
theorem Sound.exists_answer (h : q.Sound b ds cs) (hq : ∀ q', ¬ q.Turns b ds workers q') :
    ∃ answer, q.Answers answer := by
  have hanswered : ∀ e ∈ q.branches, ∃ a, e.2 = .answered a := by
    rintro ⟨c, st⟩ he
    have hover : st.IsOver := by
      by_contra hst
      obtain ⟨q', hturns⟩ : ∃ q', q.Turns b ds workers q' := exists_turns he hst
      exact hq q' hturns
    have hfine := h.fine _ he
    cases st with
    | answered a => exact ⟨a, rfl⟩
    | failed f => exact absurd rfl (hfine f)
    | waiting | searching | covered | signalled => cases hover
  by_cases hcover : ∃ c p, (c, BranchState.answered (some p)) ∈ q.branches
  · obtain ⟨c, p, he⟩ := hcover
    exact ⟨some p, .cover he⟩
  · refine ⟨none, .none ?_⟩
    rintro ⟨c, st⟩ he
    obtain ⟨a, ha⟩ := hanswered _ he
    obtain rfl : st = .answered a := ha
    cases a with
    | none => rfl
    | some p => exact absurd ⟨c, p, he⟩ hcover

/-- A cover is answered only if the board has one, and none only if it has none. -/
theorem Inv.isSome_iff {answer : Option Placement} (hrows : 1 ≤ b.rows) (hcols : 1 ≤ b.cols)
    (hcs : Search.branches b ds = .ok cs) (hinv : q.Inv b ds cs) (h : q.Answers answer) :
    answer.isSome = true ↔ ∃ p, ExactCover b ds p := by
  cases h with
  | @cover c p he =>
    have hc : c ∈ cs := hinv.candidates ▸ List.mem_map_of_mem he
    obtain ⟨s₀, raised, s, hs, hrun, -⟩ := hinv.states _ he
    exact ⟨fun _ => ⟨_, exactCover_of_branch hcs hc hs hrun⟩, fun _ => rfl⟩
  | none hall =>
    have hdown : q.flag ≠ true := by
      intro hup
      obtain ⟨e, he, hsignalled⟩ := hinv.flag hup
      rw [hall e he] at hsignalled
      exact hsignalled
    have hfailed : ∀ c ∈ cs, BranchFailed b ds c := by
      intro c hc
      rw [← hinv.candidates] at hc
      obtain ⟨e, he, rfl⟩ := List.mem_map.1 hc
      have hstate := hinv.states e he
      rw [hall e he] at hstate
      exact hstate.resolve_left hdown
    exact ⟨fun h => (by cases h), fun h => absurd h (no_exactCover_of_branches hrows hcols hcs hfailed)⟩

end Pool

/-- However the workers take turns, they come to an answer, and whichever it is, it is a cover if and
only if `solved` says so. -/
structure WorkersDecide (b : Board) (ds : List Domino) (workers : Nat) (solved : Bool) : Prop where
  ends : ∃ cs, branches b ds = .ok cs ∧
    Acc (fun q₂ q₁ : Pool => q₁.Turns b ds workers q₂) (Pool.start cs) ∧
    ∀ schedule q, (Pool.start cs).run b ds workers schedule = some q →
      (∀ q', ¬ q.Turns b ds workers q') → ∃ answer, q.Answers answer
  agrees : ∀ answer, ParallelAnswer b ds workers answer → answer.isSome = solved

theorem workersDecide_of_solve {ds : List Domino} {p : Placement} {v : Verdict} (hrows : 1 ≤ b.rows)
    (hcols : 1 ≤ b.cols) (hp : Placement.forBoard b = .ok p) (hv : solve b p ds = .ok v)
    (workers : Nat) : WorkersDecide b ds workers v.solved := by
  have hsolved : v.solved = true ↔ ∃ p, ExactCover b ds p := by
    constructor
    · intro hsolved
      exact ⟨_, exactCover_of_solve hp hv hsolved⟩
    · rintro ⟨q, hq⟩
      obtain ⟨ts, hts, -⟩ := hq.exists_tiling
      exact (solved_iff_boardTiling hp hv).2 ⟨ts, hts⟩
  constructor
  · refine ⟨_, branches_eq hp, Pool.ends _, ?_⟩
    intro schedule q hrun hq
    exact (Pool.sound_of_run hcols (branches_eq hp) hrun).exists_answer hq
  · rintro answer ⟨cs, schedule, q, hcs, hrun, hanswer⟩
    have hinv := (Pool.sound_of_run hcols hcs hrun).inv
    rw [Bool.eq_iff_iff, hinv.isSome_iff hrows hcols hcs hanswer, hsolved]

end DominoTiling.Search
