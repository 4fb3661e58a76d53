import DominoTiling.Proofs.Restore

/-!
# The counters do not steer a search

What a search does depends on the cells and the positions in use alone: from states that are `Alike`
it ends in states that are `Alike`, with the same success and as many steps and dominoes taken back
(`Outcome.exists_alike`). The flag is read by the number of the step, so this is for searches that
nothing calls off. No search takes more dominoes back than it takes steps (`Outcome.backtracks_le`), so
a word that counts the steps leaves room for both counts.
-/

namespace DominoTiling.Search

/-- From `u` to `u'` the counters go up by as much as from `s` to `s'`. -/
structure SameWork (s s' u u' : Progress) : Prop where
  nodes : u'.nodes + s.nodes = u.nodes + s'.nodes
  backtracks : u'.backtracks + s.backtracks = u.backtracks + s'.backtracks

theorem SameWork.trans {s s' s'' u u' u'' : Progress} (h : SameWork s s' u u')
    (h' : SameWork s' s'' u' u'') : SameWork s s'' u u'' := by
  obtain ⟨hn, hb⟩ := h
  obtain ⟨hn', hb'⟩ := h'
  exact ⟨by omega, by omega⟩

theorem SameWork.enter (s u : Progress) : SameWork s s.enter u u.enter :=
  ⟨by simp only [Progress.enter]; omega, rfl⟩

theorem SameWork.of_start {p q : Placement} {k n : Nat} {s u : Progress}
    (h : SameWork (.start p k) s (.start q n) u) :
    u.nodes = s.nodes ∧ u.backtracks = s.backtracks := by
  have hnodes : u.nodes + 0 = 0 + s.nodes := h.nodes
  have hbacktracks : u.backtracks + 0 = 0 + s.backtracks := h.backtracks
  omega

section
variable {c c' : Candidate} {x y : Nat} {s s' u u' : Progress}

theorem SameWork.place (h : s.place c x y = .ok s') (h' : u.place c' x y = .ok u') :
    SameWork s s' u u' := by
  constructor
  · rw [Progress.nodes_place h, Progress.nodes_place h']
  · rw [Progress.backtracks_place h, Progress.backtracks_place h']

theorem SameWork.takeBack (h : s.takeBack c x y = .ok s') (h' : u.takeBack c' x y = .ok u') :
    SameWork s s' u u' := by
  constructor
  · rw [Progress.nodes_takeBack h, Progress.nodes_takeBack h']
  · rw [Progress.backtracks_takeBack h, Progress.backtracks_takeBack h']
    omega

end

namespace Progress
variable {b : Board} {c : Candidate} {x y : Nat} {s s₁ u : Progress} {v : Bool}

theorem Alike.admits (h : u.Alike s) (hadm : s.admits b c x y = .ok v) :
    u.admits b c x y = .ok v := by
  rw [← hadm, Progress.admits, Progress.admits, h.placement, h.inUse]

theorem Alike.exists_place (h : u.Alike s) (hlay : s.place c x y = .ok s₁) :
    ∃ u₁, u.place c x y = .ok u₁ ∧ u₁.Alike s₁ ∧ SameWork s s₁ u u₁ := by
  obtain ⟨placement, inUse, nodes, backtracks⟩ := s
  obtain ⟨_, _, nodes', backtracks'⟩ := u
  obtain ⟨rfl, rfl⟩ := h
  obtain ⟨m, hm, hlay⟩ := bind_eq_ok_iff.1 hlay
  obtain ⟨used, hu, hlay⟩ := bind_eq_ok_iff.1 hlay
  obtain ⟨p₁, h₁, hlay⟩ := bind_eq_ok_iff.1 hlay
  obtain ⟨p₂, h₂, hlay⟩ := bind_eq_ok_iff.1 hlay
  obtain rfl := Except.ok.inj hlay
  refine ⟨⟨p₂, used, nodes', backtracks'⟩, ?_, ⟨rfl, rfl⟩, ⟨rfl, rfl⟩⟩
  simp only [place, hm, hu, h₁, h₂, bind, Except.bind]
  rfl

theorem Alike.exists_takeBack (h : u.Alike s) (hback : s.takeBack c x y = .ok s₁) :
    ∃ u₁, u.takeBack c x y = .ok u₁ ∧ u₁.Alike s₁ ∧ SameWork s s₁ u u₁ := by
  obtain ⟨placement, inUse, nodes, backtracks⟩ := s
  obtain ⟨_, _, nodes', backtracks'⟩ := u
  obtain ⟨rfl, rfl⟩ := h
  obtain ⟨m, hm, hback⟩ := bind_eq_ok_iff.1 hback
  obtain ⟨p₁, h₁, hback⟩ := bind_eq_ok_iff.1 hback
  obtain ⟨p₂, h₂, hback⟩ := bind_eq_ok_iff.1 hback
  obtain ⟨used, hu, hback⟩ := bind_eq_ok_iff.1 hback
  obtain rfl := Except.ok.inj hback
  refine ⟨⟨p₂, used, nodes', backtracks' + 1⟩, ?_, ⟨rfl, rfl⟩, ⟨rfl, ?_⟩⟩
  · simp only [takeBack, hm, hu, h₁, h₂, bind, Except.bind]
    rfl
  · dsimp only
    omega

theorem Alike.enter_enter (h : u.Alike s) : u.enter.Alike s.enter := ⟨h.placement, h.inUse⟩

end Progress

/-- The steps that a task takes for itself. -/
def Task.steps : Task → Nat
  | .cover _ _ => 1
  | .attempt _ _ _ => 0

namespace Outcome
variable {b : Board} {all : List Candidate} {raised : Nat → Bool} {t : Task} {s s' u : Progress}
  {r : Bool}

theorem nodes_le (h : Outcome b all raised t s r s') : s.nodes ≤ s'.nodes := by
  induction h with
  | calledOff => exact Nat.le_succ _
  | rowEnd _ _ _ _ ih => exact Nat.le_of_succ_le ih
  | complete => exact Nat.le_succ _
  | covered _ _ _ _ _ ih => exact Nat.le_of_succ_le ih
  | empty _ _ _ _ _ ih => exact Nat.le_of_succ_le ih
  | exhausted => exact Nat.le_refl _
  | refused _ _ ih => exact ih
  | found _ hlay _ ih =>
    rw [Progress.nodes_place hlay] at ih
    exact ih
  | undone _ hlay _ hback _ ih ihNext =>
    rw [Progress.nodes_place hlay] at ih
    rw [Progress.nodes_takeBack hback] at ihNext
    exact Nat.le_trans ih ihNext

/-- A domino is taken back only after a step behind it, and a call takes a step of its own. -/
theorem backtracks_le (h : Outcome b all raised t s r s') :
    s'.backtracks + s.nodes + t.steps ≤ s.backtracks + s'.nodes := by
  induction h with
  | calledOff => exact Nat.le_refl _
  | rowEnd _ _ _ _ ih =>
    simp only [Progress.enter, Task.steps] at ih ⊢
    omega
  | complete => exact Nat.le_refl _
  | covered _ _ _ _ _ ih =>
    simp only [Progress.enter, Task.steps] at ih ⊢
    omega
  | empty _ _ _ _ _ ih =>
    simp only [Progress.enter, Task.steps] at ih ⊢
    omega
  | exhausted => exact Nat.le_refl _
  | refused _ _ ih => exact ih
  | found _ hlay _ ih =>
    rw [Progress.nodes_place hlay, Progress.backtracks_place hlay] at ih
    exact Nat.le_of_succ_le ih
  | undone _ hlay _ hback _ ih ihNext =>
    rw [Progress.nodes_place hlay, Progress.backtracks_place hlay] at ih
    rw [Progress.nodes_takeBack hback, Progress.backtracks_takeBack hback] at ihNext
    simp only [Task.steps] at ih ihNext ⊢
    omega

theorem exists_alike (h : Outcome b all never t s r s') (hu : u.Alike s) :
    ∃ u', Outcome b all never t u r u' ∧ u'.Alike s' ∧ SameWork s s' u u' := by
  induction h generalizing u with
  | calledOff hread => cases hread
  | rowEnd _ hy hx _ ih =>
    obtain ⟨u', hout, halike, hwork⟩ := ih hu.enter_enter
    exact ⟨u', .rowEnd rfl hy hx hout, halike, (SameWork.enter ..).trans hwork⟩
  | complete _ hy hx => exact ⟨_, .complete rfl hy hx, hu.enter_enter, .enter ..⟩
  | covered _ hy hx hset _ ih =>
    obtain ⟨u', hout, halike, hwork⟩ := ih hu.enter_enter
    rw [← hu.placement] at hset
    exact ⟨u', .covered rfl hy hx hset hout, halike, (SameWork.enter ..).trans hwork⟩
  | empty _ hy hx hset _ ih =>
    obtain ⟨u', hout, halike, hwork⟩ := ih hu.enter_enter
    rw [← hu.placement] at hset
    exact ⟨u', .empty rfl hy hx hset hout, halike, (SameWork.enter ..).trans hwork⟩
  | exhausted => exact ⟨u, .exhausted, hu, rfl, rfl⟩
  | refused hadm _ ih =>
    obtain ⟨u', hout, halike, hwork⟩ := ih hu
    exact ⟨u', .refused (hu.admits hadm) hout, halike, hwork⟩
  | found hadm hlay _ ih =>
    obtain ⟨u₁, hlay', hu₁, hwork₁⟩ := hu.exists_place hlay
    obtain ⟨u', hout, halike, hwork⟩ := ih hu₁
    exact ⟨u', .found (hu.admits hadm) hlay' hout, halike, hwork₁.trans hwork⟩
  | undone hadm hlay _ hback _ ih ihNext =>
    obtain ⟨u₁, hlay', hu₁, hwork₁⟩ := hu.exists_place hlay
    obtain ⟨u₂, hout, hu₂, hwork₂⟩ := ih hu₁
    obtain ⟨u₃, hback', hu₃, hwork₃⟩ := hu₂.exists_takeBack hback
    obtain ⟨u', hnext, halike, hwork⟩ := ihNext hu₃
    exact ⟨u', .undone (hu.admits hadm) hlay' hout hback' hnext, halike,
      ((hwork₁.trans hwork₂).trans hwork₃).trans hwork⟩

end Outcome
end DominoTiling.Search
