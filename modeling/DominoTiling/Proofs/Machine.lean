import DominoTiling.Search.Machine
import DominoTiling.Proofs.Laying
import DominoTiling.Proofs.Outcome
import Mathlib.Logic.Relation

/-!
# A machine makes the search that it stands for

`Moves` has one rule for each kind of step a machine takes. `Machine.value` is the outcome that a
machine is on the way to: that of the call it is about to enter or of the candidates it is about to
try, handed to the calls that wait. No step changes it (`value_of_moves`), so a machine that has
left its outermost call has the outcome of the search it began with.

The value is taken for a flag that is given at every step, those to come included. A step fixes
what the flag reads at its own number alone, so it is the same for all flags that agree with what
has been read.

In the other direction, a search with an outcome is made by a machine in a number of steps
(`Outcome.reaches`).
-/

namespace DominoTiling.Search

/-- The steps of a machine, by what it is about to do. `read` is what the flag reads where a call is
entered. -/
inductive Moves (b : Board) (all : List Candidate) : Bool → Machine → Machine → Prop
  | calledOff {x y : Nat} {fs : List Frame} {s : Progress} :
      Moves b all true ⟨.enter x y, fs, s⟩ ⟨.leave false, fs, s.enter⟩
  | rowEnd {x y : Nat} {fs : List Frame} {s : Progress} (hy : b.cols ≤ y) (hx : x + 1 < 2 ^ 64) :
      Moves b all false ⟨.enter x y, fs, s⟩ ⟨.enter (x + 1) 0, .pass :: fs, s.enter⟩
  | complete {x y : Nat} {fs : List Frame} {s : Progress} (hy : y < b.cols) (hx : b.rows ≤ x) :
      Moves b all false ⟨.enter x y, fs, s⟩ ⟨.leave true, fs, s.enter⟩
  | covered {x y : Nat} {fs : List Frame} {s : Progress} (hy : y < b.cols) (hx : x < b.rows)
      (hset : s.placement.isSet x y = .ok true) :
      Moves b all false ⟨.enter x y, fs, s⟩ ⟨.enter x (y + 1), .pass :: fs, s.enter⟩
  | empty {x y : Nat} {fs : List Frame} {s : Progress} (hy : y < b.cols) (hx : x < b.rows)
      (hset : s.placement.isSet x y = .ok false) :
      Moves b all false ⟨.enter x y, fs, s⟩ ⟨.attempt x y all, fs, s.enter⟩
  | exhausted {read : Bool} {x y : Nat} {fs : List Frame} {s : Progress} :
      Moves b all read ⟨.attempt x y [], fs, s⟩ ⟨.leave false, fs, s⟩
  | refused {read : Bool} {x y : Nat} {c : Candidate} {cs : List Candidate} {fs : List Frame}
      {s : Progress} (hadm : s.admits b c x y = .ok false) :
      Moves b all read ⟨.attempt x y (c :: cs), fs, s⟩ ⟨.attempt x y cs, fs, s⟩
  | laid {read : Bool} {x y : Nat} {c : Candidate} {cs : List Candidate} {fs : List Frame}
      {s s₁ : Progress} (hadm : s.admits b c x y = .ok true) (hlay : s.place c x y = .ok s₁) :
      Moves b all read ⟨.attempt x y (c :: cs), fs, s⟩ ⟨.enter x (y + 1), .trial x y c cs :: fs, s₁⟩
  | stays {read found : Bool} {s : Progress} :
      Moves b all read ⟨.leave found, [], s⟩ ⟨.leave found, [], s⟩
  | passed {read found : Bool} {fs : List Frame} {s : Progress} :
      Moves b all read ⟨.leave found, .pass :: fs, s⟩ ⟨.leave found, fs, s⟩
  | found {read : Bool} {x y : Nat} {c : Candidate} {cs : List Candidate} {fs : List Frame}
      {s : Progress} :
      Moves b all read ⟨.leave true, .trial x y c cs :: fs, s⟩ ⟨.leave true, fs, s⟩
  | undone {read : Bool} {x y : Nat} {c : Candidate} {cs : List Candidate} {fs : List Frame}
      {s s₁ : Progress} (hback : s.takeBack c x y = .ok s₁) :
      Moves b all read ⟨.leave false, .trial x y c cs :: fs, s⟩ ⟨.attempt x y cs, fs, s₁⟩

variable {b : Board} {all : List Candidate} {raised : Nat → Bool} {read : Bool} {m m' : Machine}

theorem Machine.moves_of_step (h : m.step b all read = .ok m') : Moves b all read m m' := by
  unfold step at h
  split at h
  · split at h
    · rename_i hread
      cases h
      rw [hread]
      exact .calledOff
    · rename_i hread
      rw [Bool.eq_false_iff.2 hread]
      split at h
      · rename_i hy
        obtain ⟨x', hx, h⟩ := bind_eq_ok_iff.1 h
        obtain ⟨hlt, rfl⟩ := word_eq_ok_iff.1 hx
        cases h
        exact .rowEnd hy hlt
      · rename_i hy
        split at h
        · rename_i hx
          cases h
          exact .complete (Nat.lt_of_not_le hy) hx
        · rename_i hx
          obtain ⟨v, hset, h⟩ := bind_eq_ok_iff.1 h
          cases v with
          | true =>
            cases h
            exact .covered (Nat.lt_of_not_le hy) (Nat.lt_of_not_le hx) hset
          | false =>
            cases h
            exact .empty (Nat.lt_of_not_le hy) (Nat.lt_of_not_le hx) hset
  · cases h
    exact .exhausted
  · obtain ⟨v, hadm, h⟩ := bind_eq_ok_iff.1 h
    cases v with
    | true =>
      obtain ⟨s₁, hlay, h⟩ := bind_eq_ok_iff.1 h
      cases h
      exact .laid hadm hlay
    | false =>
      cases h
      exact .refused hadm
  · cases h
    exact .stays
  · cases h
    exact .passed
  · cases h
    exact .found
  · obtain ⟨s₁, hback, h⟩ := bind_eq_ok_iff.1 h
    cases h
    exact .undone hback

def Control.value (b : Board) (all : List Candidate) (raised : Nat → Bool) (s : Progress) :
    Control → Except Fault (Bool × Progress)
  | .enter x y => run b all raised x y s
  | .attempt x y cs => tryCandidates b x y (fun s => run b all raised x (y + 1) s) cs s
  | .leave found => .ok (found, s)

/-- The outcome of the waiting calls, given that of the one inside them. -/
def resume (b : Board) (all : List Candidate) (raised : Nat → Bool) :
    List Frame → Bool × Progress → Except Fault (Bool × Progress)
  | [], r => .ok r
  | .pass :: fs, r => resume b all raised fs r
  | .trial _ _ _ _ :: fs, (true, s) => resume b all raised fs (true, s)
  | .trial x y c cs :: fs, (false, s) => do
    let s ← s.takeBack c x y
    let r ← tryCandidates b x y (fun s => run b all raised x (y + 1) s) cs s
    resume b all raised fs r

/-- The outcome that a machine is on the way to. -/
def Machine.value (b : Board) (all : List Candidate) (raised : Nat → Bool) (m : Machine) :
    Except Fault (Bool × Progress) :=
  m.control.value b all raised m.progress >>= resume b all raised m.frames

theorem Machine.value_of_result? {found : Bool} (h : m.result? = some found) :
    m.value b all raised = .ok (found, m.progress) := by
  unfold result? at h
  split at h
  · cases h
    rfl
  · cases h

theorem Machine.value_enter {x y : Nat} {s : Progress} :
    Machine.value b all raised ⟨.enter x y, [], s⟩ = run b all raised x y s := by
  simp only [Machine.value, Control.value]
  cases run b all raised x y s <;> rfl

theorem Moves.nodes (h : Moves b all read m m') :
    m'.progress.nodes = m.progress.nodes ∨ m'.progress.nodes = m.progress.nodes + 1 := by
  cases h with
  | calledOff | rowEnd | complete | covered | empty => exact .inr rfl
  | exhausted | refused | stays | passed | found => exact .inl rfl
  | laid _ hlay => exact .inl (Progress.nodes_place hlay)
  | undone hback => exact .inl (Progress.nodes_takeBack hback)

/-- A step does not change the outcome, if the flag reads what the step has read. -/
theorem value_of_moves (h : Moves b all read m m')
    (hread : m'.progress.nodes = m.progress.nodes + 1 → raised m'.progress.nodes = read) :
    m'.value b all raised = m.value b all raised := by
  cases h with
  | calledOff =>
    simp only [Machine.value, Control.value]
    rw [run_calledOff (hread rfl)]
  | rowEnd hy hx =>
    simp only [Machine.value, Control.value]
    rw [run_rowEnd (hread rfl) hy hx]
    rfl
  | complete hy hx =>
    simp only [Machine.value, Control.value]
    rw [run_complete (hread rfl) hy hx]
  | covered hy hx hset =>
    simp only [Machine.value, Control.value]
    rw [run_covered (hread rfl) hy hx hset]
    rfl
  | empty hy hx hset =>
    simp only [Machine.value, Control.value]
    rw [run_empty (hread rfl) hy hx hset]
  | exhausted => rfl
  | refused hadm =>
    simp only [Machine.value, Control.value]
    rw [tryCandidates_refused hadm]
  | @laid read x y c cs fs s s₁ hadm hlay =>
    simp only [Machine.value, Control.value]
    rw [tryCandidates_laid hadm hlay]
    -- the frame does with the outcome of the inner call what the loop does
    cases run b all raised x (y + 1) s₁ with
    | error f => rfl
    | ok r =>
      obtain ⟨found, s₂⟩ := r
      cases found with
      | true => rfl
      | false =>
        show (s₂.takeBack c x y >>= fun s => tryCandidates b x y _ cs s >>= _) =
          (s₂.takeBack c x y >>= tryCandidates b x y _ cs) >>= _
        cases s₂.takeBack c x y <;> rfl
  | stays | passed | found => rfl
  | undone hback =>
    simp only [Machine.value, Control.value]
    show _ = resume b all raised _ _
    rw [resume, hback]
    rfl

/-! ### Searches that end -/

theorem Moves.step (h : Moves b all read m m') : m.step b all read = .ok m' := by
  cases h with
  | calledOff => rfl
  | rowEnd hy hx =>
    simp only [Machine.step, Bool.false_eq_true, ↓reduceIte, hy, word_of_lt hx]
    rfl
  | complete hy hx =>
    simp only [Machine.step, Bool.false_eq_true, ↓reduceIte, Nat.not_le.2 hy, hx]
  | covered hy hx hset =>
    simp only [Machine.step, Bool.false_eq_true, ↓reduceIte, Nat.not_le.2 hy, Nat.not_le.2 hx, hset]
    rfl
  | empty hy hx hset =>
    simp only [Machine.step, Bool.false_eq_true, ↓reduceIte, Nat.not_le.2 hy, Nat.not_le.2 hx, hset]
    rfl
  | exhausted => rfl
  | refused hadm =>
    simp only [Machine.step, hadm]
    rfl
  | laid hadm hlay =>
    simp only [Machine.step, hadm, hlay]
    rfl
  | stays | passed | found => rfl
  | undone hback =>
    simp only [Machine.step, hback]
    rfl

/-- One step of a search that has not ended. What the flag reads depends on the number of the step. -/
def Machine.Advances (b : Board) (all : List Candidate) (raised : Nat → Bool) (m m' : Machine) :
    Prop :=
  m.result? = none ∧ Moves b all (raised (m.progress.nodes + 1)) m m'

/-- One step of a search that has not ended, where the flag is down. -/
def Machine.Goes (b : Board) (all : List Candidate) (m m' : Machine) : Prop :=
  m.result? = none ∧ Moves b all false m m'

def Task.control : Task → Control
  | .cover x y => .enter x y
  | .attempt x y cs => .attempt x y cs

/-- A search comes to its outcome in a number of steps, whatever calls wait for it. -/
theorem Outcome.advances {t : Task} {s s' : Progress} {r : Bool} (h : Outcome b all raised t s r s')
    (fs : List Frame) :
    Relation.ReflTransGen (Machine.Advances b all raised) ⟨t.control, fs, s⟩ ⟨.leave r, fs, s'⟩ := by
  induction h generalizing fs with
  | calledOff hread => exact .single ⟨rfl, hread ▸ .calledOff⟩
  | rowEnd hread hy hx _ ih =>
    exact ((ih (.pass :: fs)).head ⟨rfl, hread ▸ .rowEnd hy hx⟩).tail ⟨rfl, .passed⟩
  | complete hread hy hx => exact .single ⟨rfl, hread ▸ .complete hy hx⟩
  | covered hread hy hx hset _ ih =>
    exact ((ih (.pass :: fs)).head ⟨rfl, hread ▸ .covered hy hx hset⟩).tail ⟨rfl, .passed⟩
  | empty hread hy hx hset _ ih => exact (ih fs).head ⟨rfl, hread ▸ .empty hy hx hset⟩
  | exhausted => exact .single ⟨rfl, .exhausted⟩
  | refused hadm _ ih => exact (ih fs).head ⟨rfl, .refused hadm⟩
  | @found x y c cs _ _ _ hadm hlay _ ih =>
    exact ((ih (.trial x y c cs :: fs)).head ⟨rfl, .laid hadm hlay⟩).tail ⟨rfl, .found⟩
  | @undone x y c cs _ _ _ _ _ _ hadm hlay _ hback _ ih ihNext =>
    have hinner := (ih (.trial x y c cs :: fs)).head ⟨rfl, .laid hadm hlay⟩
    exact (hinner.tail ⟨rfl, .undone hback⟩).trans (ihNext fs)

theorem Outcome.reaches {t : Task} {s s' : Progress} {r : Bool} (h : Outcome b all never t s r s')
    (fs : List Frame) :
    Relation.ReflTransGen (Machine.Goes b all) ⟨t.control, fs, s⟩ ⟨.leave r, fs, s'⟩ :=
  h.advances fs

namespace Machine

theorem value_of_reaches (h : Relation.ReflTransGen (Advances b all raised) m m') :
    m'.value b all raised = m.value b all raised := by
  induction h with
  | refl => rfl
  | tail _ hstep ih => exact (value_of_moves hstep.2 fun hnodes => congrArg raised hnodes).trans ih

theorem nodes_le_of_reaches (h : Relation.ReflTransGen (Advances b all raised) m m') :
    m.progress.nodes ≤ m'.progress.nodes := by
  induction h with
  | refl => exact Nat.le_refl _
  | tail _ hstep ih =>
    have hnodes := hstep.2.nodes
    omega

/-- A search that has come to an outcome has gone through every state that it reaches. -/
theorem reaches_of_reaches {r : Bool} {s : Progress} {m₁ : Machine}
    (h : Relation.ReflTransGen (Advances b all raised) m ⟨.leave r, [], s⟩)
    (h₁ : Relation.ReflTransGen (Advances b all raised) m m₁) :
    Relation.ReflTransGen (Advances b all raised) m₁ ⟨.leave r, [], s⟩ := by
  have hunique : Relator.RightUnique (Advances b all raised) := by
    intro m m₁ m₂ h₁ h₂
    exact Except.ok.inj (h₁.2.step.symm.trans h₂.2.step)
  rcases Relation.ReflTransGen.total_of_right_unique hunique h h₁ with hafter | hbefore
  · rcases hafter.cases_head with rfl | ⟨_, hstep, -⟩
    · exact .refl
    · cases hstep.1
  · exact hbefore

end Machine
end DominoTiling.Search
