import DominoTiling.Search.Solve
import DominoTiling.Proofs.Laying
import DominoTiling.Proofs.Outcome

/-!
# What a search leaves behind

A search without success leaves the cells and the positions in use as it found them, wherever it was
called off; one with success keeps every cell that was covered. Both hold of every call, on any
placement and from any state: the loop takes back exactly what it laid (`Progress.takeBack_place`),
so each turn starts from cells and positions like those of the first.
-/

namespace DominoTiling.Search
namespace Outcome
variable {b : Board} {all : List Candidate} {raised : Nat → Bool} {t : Task} {s s' : Progress}
  {r : Bool}

theorem restores (h : Outcome b all raised t s r s') (hr : r = false) : s'.Alike s := by
  induction h with
  | calledOff => exact .enter _
  | rowEnd _ _ _ _ ih => exact (ih hr).trans (.enter _)
  | complete => cases hr
  | covered _ _ _ _ _ ih => exact (ih hr).trans (.enter _)
  | empty _ _ _ _ _ ih => exact (ih hr).trans (.enter _)
  | exhausted => exact .refl _
  | refused _ _ ih => exact ih hr
  | found => cases hr
  | undone hadm hlay _ hback _ ih ihNext =>
    exact (ihNext hr).trans (Progress.takeBack_place hadm hlay (ih rfl) hback)

theorem shape (h : Outcome b all raised t s r s') :
    s'.placement.rows = s.placement.rows ∧ s'.placement.cols = s.placement.cols := by
  induction h with
  | calledOff => exact ⟨rfl, rfl⟩
  | rowEnd _ _ _ _ ih => exact ih
  | complete => exact ⟨rfl, rfl⟩
  | covered _ _ _ _ _ ih => exact ih
  | empty _ _ _ _ _ ih => exact ih
  | exhausted => exact ⟨rfl, rfl⟩
  | refused _ _ ih => exact ih
  | found _ hlay _ ih =>
    have hshape := Progress.shape_place hlay
    exact ⟨ih.1.trans hshape.1, ih.2.trans hshape.2⟩
  | undone hadm hlay onward hback _ _ ihNext =>
    rw [(Progress.takeBack_place hadm hlay (onward.restores rfl) hback).placement] at ihNext
    exact ihNext

theorem hasShape (h : Outcome b all raised t s r s') (hp : s.placement.HasShape b) :
    s'.placement.HasShape b :=
  ⟨h.shape.1.trans hp.1, h.shape.2.trans hp.2⟩

/-- No position that holds something changes, with success or without. -/
theorem keeps (h : Outcome b all raised t s r s') {k i : Nat}
    (hk : s.placement.cells[k]? = some (some i)) : s'.placement.cells[k]? = some (some i) := by
  induction h with
  | calledOff => exact hk
  | rowEnd _ _ _ _ ih => exact ih hk
  | complete => exact hk
  | covered _ _ _ _ _ ih => exact ih hk
  | empty _ _ _ _ _ ih => exact ih hk
  | exhausted => exact hk
  | refused _ _ ih => exact ih hk
  | found hadm hlay _ ih => exact ih (Progress.cells_place hadm hlay hk)
  | undone hadm hlay onward hback _ _ ihNext =>
    refine ihNext ?_
    rw [(Progress.takeBack_place hadm hlay (onward.restores rfl) hback).placement]
    exact hk

theorem at?_keeps (h : Outcome b all raised t s r s') {c : Nat × Nat} {i : Nat}
    (hc : s.placement.at? c = some (some i)) : s'.placement.at? c = some (some i) := by
  obtain ⟨hx, hy⟩ := Grid.lt_of_at? hc
  rw [Grid.at?_of_lt hx hy] at hc
  rw [Grid.at?_of_lt (h.shape.1 ▸ hx) (h.shape.2 ▸ hy), h.shape.2]
  exact h.keeps hc

theorem at?_of_not_open (h : Outcome b all raised t s r s') {c : Nat × Nat}
    (hc : s.placement.at? c ≠ some none) : s'.placement.at? c = s.placement.at? c := by
  rcases hcell : s.placement.at? c with _ | _ | i
  · rw [Grid.at?_eq_none_iff] at hcell ⊢
    rwa [h.shape.1, h.shape.2]
  · exact absurd hcell hc
  · exact h.at?_keeps hcell

end Outcome
end DominoTiling.Search
