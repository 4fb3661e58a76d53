import DominoTiling.Search.Run

/-!
# The outcome of a search as a relation

`Outcome` has one rule for each way in which a call of `run`, or a turn of the loop over the
candidates, comes to an end. It holds exactly of the calls that have a value (`run_eq_ok_iff`), so
a statement about every finished search is proved by induction on its outcome, one case a rule.
-/

namespace DominoTiling.Search

/-- What is asked of a search: to cover the board from a cell on, or to try candidates at an empty
cell. -/
inductive Task where
  | cover (x y : Nat)
  | attempt (x y : Nat) (cs : List Candidate)

/-- A task ends in a state, with or without success. The flag is read whenever a cover is asked
for, at the number of the step that this takes. -/
inductive Outcome (b : Board) (all : List Candidate) (raised : Nat → Bool) :
    Task → Progress → Bool → Progress → Prop
  | calledOff {x y : Nat} {s : Progress} (hread : raised s.enter.nodes = true) :
      Outcome b all raised (.cover x y) s false s.enter
  | rowEnd {x y : Nat} {s s' : Progress} {r : Bool} (hread : raised s.enter.nodes = false)
      (hy : b.cols ≤ y) (hx : x + 1 < 2 ^ 64)
      (onward : Outcome b all raised (.cover (x + 1) 0) s.enter r s') :
      Outcome b all raised (.cover x y) s r s'
  | complete {x y : Nat} {s : Progress} (hread : raised s.enter.nodes = false) (hy : y < b.cols)
      (hx : b.rows ≤ x) : Outcome b all raised (.cover x y) s true s.enter
  | covered {x y : Nat} {s s' : Progress} {r : Bool} (hread : raised s.enter.nodes = false)
      (hy : y < b.cols) (hx : x < b.rows) (hset : s.placement.isSet x y = .ok true)
      (onward : Outcome b all raised (.cover x (y + 1)) s.enter r s') :
      Outcome b all raised (.cover x y) s r s'
  | empty {x y : Nat} {s s' : Progress} {r : Bool} (hread : raised s.enter.nodes = false)
      (hy : y < b.cols) (hx : x < b.rows) (hset : s.placement.isSet x y = .ok false)
      (onward : Outcome b all raised (.attempt x y all) s.enter r s') :
      Outcome b all raised (.cover x y) s r s'
  | exhausted {x y : Nat} {s : Progress} : Outcome b all raised (.attempt x y []) s false s
  | refused {x y : Nat} {c : Candidate} {cs : List Candidate} {s s' : Progress} {r : Bool}
      (hadm : s.admits b c x y = .ok false)
      (next : Outcome b all raised (.attempt x y cs) s r s') :
      Outcome b all raised (.attempt x y (c :: cs)) s r s'
  | found {x y : Nat} {c : Candidate} {cs : List Candidate} {s s₁ s' : Progress}
      (hadm : s.admits b c x y = .ok true) (hlay : s.place c x y = .ok s₁)
      (onward : Outcome b all raised (.cover x (y + 1)) s₁ true s') :
      Outcome b all raised (.attempt x y (c :: cs)) s true s'
  | undone {x y : Nat} {c : Candidate} {cs : List Candidate} {s s₁ s₂ s₃ s' : Progress} {r : Bool}
      (hadm : s.admits b c x y = .ok true) (hlay : s.place c x y = .ok s₁)
      (onward : Outcome b all raised (.cover x (y + 1)) s₁ false s₂)
      (hback : s₂.takeBack c x y = .ok s₃)
      (next : Outcome b all raised (.attempt x y cs) s₃ r s') :
      Outcome b all raised (.attempt x y (c :: cs)) s r s'

namespace Outcome
variable {b : Board} {all cs : List Candidate} {raised : Nat → Bool} {x y : Nat} {s s' : Progress}
  {r : Bool}

theorem of_tryCandidates {onward : Progress → Except Fault (Bool × Progress)}
    (honward : ∀ {s r s'}, onward s = .ok (r, s') → Outcome b all raised (.cover x (y + 1)) s r s')
    (h : tryCandidates b x y onward cs s = .ok (r, s')) :
    Outcome b all raised (.attempt x y cs) s r s' := by
  induction cs generalizing s with
  | nil =>
    cases h
    exact .exhausted
  | cons c cs ih =>
    obtain ⟨adm, hadm, h⟩ := bind_eq_ok_iff.1 h
    cases adm with
    | false => exact .refused hadm (ih h)
    | true =>
      obtain ⟨s₁, hlay, h⟩ := bind_eq_ok_iff.1 h
      obtain ⟨⟨found, s₂⟩, hon, h⟩ := bind_eq_ok_iff.1 h
      cases found with
      | true =>
        cases h
        exact .found hadm hlay (honward hon)
      | false =>
        obtain ⟨s₃, hback, h⟩ := bind_eq_ok_iff.1 h
        exact .undone hadm hlay (honward hon) hback (ih h)

theorem of_run (h : run b all raised x y s = .ok (r, s')) :
    Outcome b all raised (.cover x y) s r s' := by
  induction x, y, s using run.induct b raised generalizing r s' with
  | case1 x y s hread =>
    rw [run, if_pos hread] at h
    cases h
    exact .calledOff hread
  | case2 x y s hread hy x' hx ih =>
    obtain ⟨hlt, rfl⟩ := word_eq_ok_iff.1 hx
    rw [run, if_neg hread, if_pos hy] at h
    split at h
    · rename_i x' hx'
      obtain ⟨-, rfl⟩ := word_eq_ok_iff.1 hx'
      exact .rowEnd (Bool.eq_false_iff.2 hread) hy hlt (ih h)
    · cases h
  | case3 x y s hread hy f hx =>
    rw [run, if_neg hread, if_pos hy] at h
    split at h
    · rename_i x' hx'
      rw [hx] at hx'
      cases hx'
    · cases h
  | case4 x y s hread hy hx =>
    rw [run, if_neg hread, if_neg hy, if_pos hx] at h
    cases h
    exact .complete (Bool.eq_false_iff.2 hread) (Nat.lt_of_not_le hy) hx
  | case5 x y s hread hy hx ihSet ihEmpty =>
    rw [run, if_neg hread, if_neg hy, if_neg hx] at h
    obtain ⟨v, hset, h⟩ := bind_eq_ok_iff.1 h
    cases v with
    | true =>
      exact .covered (Bool.eq_false_iff.2 hread) (Nat.lt_of_not_le hy) (Nat.lt_of_not_le hx) hset
        (ihSet h)
    | false =>
      exact .empty (Bool.eq_false_iff.2 hread) (Nat.lt_of_not_le hy) (Nat.lt_of_not_le hx) hset
        (of_tryCandidates (fun hon => ihEmpty _ hon) h)

/-- The value of the computation that a task stands for. -/
def Value (b : Board) (all : List Candidate) (raised : Nat → Bool) :
    Task → Progress → Except Fault (Bool × Progress)
  | .cover x y, s => run b all raised x y s
  | .attempt x y cs, s => tryCandidates b x y (fun s => run b all raised x (y + 1) s) cs s

theorem value_eq {t : Task} (h : Outcome b all raised t s r s') :
    Value b all raised t s = .ok (r, s') := by
  induction h with
  | calledOff hread => exact run_calledOff hread
  | rowEnd hread hy hx _ ih => exact (run_rowEnd hread hy hx).trans ih
  | complete hread hy hx => exact run_complete hread hy hx
  | covered hread hy hx hset _ ih => exact (run_covered hread hy hx hset).trans ih
  | empty hread hy hx hset _ ih => exact (run_empty hread hy hx hset).trans ih
  | exhausted => rfl
  | refused hadm _ ih => exact (tryCandidates_refused hadm).trans ih
  | found hadm hlay _ ih =>
    refine (tryCandidates_laid hadm hlay).trans ?_
    exact bind_eq_ok_iff.2 ⟨_, ih, rfl⟩
  | undone hadm hlay _ hback _ ih ihNext =>
    refine (tryCandidates_laid hadm hlay).trans ?_
    exact bind_eq_ok_iff.2 ⟨_, ih, bind_eq_ok_iff.2 ⟨_, hback, ihNext⟩⟩

end Outcome

/-- A search has a value exactly if it has an outcome. -/
theorem run_eq_ok_iff {b : Board} {all : List Candidate} {raised : Nat → Bool} {x y : Nat}
    {s s' : Progress} {r : Bool} :
    run b all raised x y s = .ok (r, s') ↔ Outcome b all raised (.cover x y) s r s' :=
  ⟨Outcome.of_run, Outcome.value_eq⟩

end DominoTiling.Search
