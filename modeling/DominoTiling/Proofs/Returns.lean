import DominoTiling.Proofs.Solve

/-!
# Searches return

On a board with a column, a search on a placement of its shape has a value: no position is read past
its end and no coordinate needs more than a word (`exists_run`). Coordinates stay within the board
but for the step from the end of a row to the next one, so one hypothesis is left, that this step
has a word for the row where the search begins at the end of a row. The number of steps and of
dominoes taken back is not bounded here.

Each operation has a value where the state is `Sized`; what a failed call leaves is `Alike` what it
was given, so the loop stays among such states.
-/

namespace DominoTiling.Search

/-! ### States of a search -/

/-- The placement has the shape of the board, and there are words for the positions of the list. -/
structure Progress.Sized (b : Board) (ds : List Domino) (s : Progress) : Prop where
  shape : s.placement.HasShape b
  words : s.inUse.words.size = (ds.length + 63) / 64

namespace Progress
variable {b : Board} {ds : List Domino} {c : Candidate} {x y : Nat} {s s' : Progress}

theorem sized_start {p : Placement} (hp : p.HasShape b) : (start p ds.length).Sized b ds :=
  ⟨hp, Array.size_replicate⟩

theorem Sized.alike (h : s.Sized b ds) (hs : s'.Alike s) : s'.Sized b ds :=
  ⟨hs.placement ▸ h.shape, hs.inUse ▸ h.words⟩

theorem Sized.word_lt (h : s.Sized b ds) (hc : c ∈ candidates ds) :
    c.index / 64 < s.inUse.words.size := by
  have hlt := index_lt_of_mem hc
  rw [h.words]
  omega

theorem Sized.exists_admits (h : s.Sized b ds) (hc : c ∈ candidates ds) (hx : x < b.rows)
    (hy : y < b.cols) : ∃ v, s.admits b c x y = .ok v := by
  have hrows := Grid.rows_lt_word hy
  have hcols := Grid.cols_lt_word hx
  have hpartner : c.orientation.partner x y = .ok (c.orientation.mate (x, y)) := by
    refine Orientation.partner_of_lt ?_
    cases c.orientation <;> simp only [Orientation.mate] <;> omega
  obtain ⟨v, hv⟩ := IndexSet.exists_contains (h.word_lt hc)
  obtain ⟨v', hv'⟩ := c.domino.exists_fits h.shape hpartner
  cases v with
  | true => exact ⟨false, by simp only [admits, hv]; rfl⟩
  | false => exact ⟨v', by simp only [admits, hv]; exact hv'⟩

/-- Both cells of an admitted candidate are on the board. -/
theorem Sized.lt_of_admits (h : s.Sized b ds) (hadm : s.admits b c x y = .ok true) :
    (x < b.rows ∧ y < b.cols) ∧
      (c.orientation.mate (x, y)).1 < b.rows ∧ (c.orientation.mate (x, y)).2 < b.cols := by
  obtain ⟨-, -, m, n, hm, hn, -⟩ :=
    (Domino.fits_iff h.shape).1 (admits_eq_true_iff.1 hadm).2
  exact ⟨Grid.lt_of_at? hm, Grid.lt_of_at? hn⟩

theorem Sized.exists_place (h : s.Sized b ds) (hc : c ∈ candidates ds)
    (hadm : s.admits b c x y = .ok true) : ∃ s', s.place c x y = .ok s' ∧ s'.Sized b ds := by
  obtain ⟨hcell, hmate⟩ := h.lt_of_admits hadm
  obtain ⟨hrows, hcols⟩ := h.shape
  have hpartner := Orientation.partner_of_lt (Grid.lt_word_of_lt hmate.1 hmate.2)
  obtain ⟨used, hin, hwords⟩ := IndexSet.exists_insert (h.word_lt hc)
  obtain ⟨p₁, h₁⟩ := Grid.set_of_lt (hrows ▸ hcell.1) (hcols ▸ hcell.2) (some c.index)
  obtain ⟨hr₁, hc₁, -⟩ := Grid.set_eq_ok h₁
  rw [← hrows, ← hr₁, ← hcols, ← hc₁] at hmate
  obtain ⟨p₂, h₂⟩ := Grid.set_of_lt hmate.1 hmate.2 (some c.index)
  obtain ⟨hr₂, hc₂, -⟩ := Grid.set_eq_ok h₂
  refine ⟨⟨p₂, used, s.nodes, s.backtracks⟩, ?_, ?_, hwords.trans h.words⟩
  · simp only [place, hpartner, hin, h₁, h₂, bind, Except.bind]
    rfl
  · exact ⟨hr₂.trans (hr₁.trans hrows), hc₂.trans (hc₁.trans hcols)⟩

/-- What lies on the board can be taken back. -/
theorem Sized.exists_takeBack (h : s.Sized b ds) (hc : c ∈ candidates ds)
    (hmate : (c.orientation.mate (x, y)).1 < b.rows ∧ (c.orientation.mate (x, y)).2 < b.cols) :
    ∃ s', s.takeBack c x y = .ok s' := by
  have hcell := Orientation.lt_of_mate_lt hmate
  obtain ⟨hrows, hcols⟩ := h.shape
  have hpartner := Orientation.partner_of_lt (Grid.lt_word_of_lt hmate.1 hmate.2)
  obtain ⟨used, hout, -⟩ := IndexSet.exists_remove (h.word_lt hc)
  obtain ⟨p₁, h₁⟩ := Grid.set_of_lt (hrows ▸ hcell.1) (hcols ▸ hcell.2) none
  obtain ⟨hr₁, hc₁, -⟩ := Grid.set_eq_ok h₁
  rw [← hrows, ← hr₁, ← hcols, ← hc₁] at hmate
  obtain ⟨p₂, h₂⟩ := Grid.set_of_lt hmate.1 hmate.2 none
  refine ⟨⟨p₂, used, s.nodes, s.backtracks + 1⟩, ?_⟩
  simp only [takeBack, hpartner, hout, h₁, h₂, bind, Except.bind]
  rfl

/-- Behind a call that fails, what was laid is taken back, and all is as it was. -/
theorem Sized.exists_takeBack_place {s₁ s₂ : Progress} (h : s.Sized b ds) (hc : c ∈ candidates ds)
    (hadm : s.admits b c x y = .ok true) (hlay : s.place c x y = .ok s₁) (h₂ : s₂.Alike s₁) :
    ∃ s₃, s₂.takeBack c x y = .ok s₃ ∧ s₃.Alike s := by
  obtain ⟨s', hlay', hs'⟩ := h.exists_place hc hadm
  obtain rfl := Except.ok.inj (hlay'.symm.trans hlay)
  obtain ⟨s₃, hback⟩ := (hs'.alike h₂).exists_takeBack hc (h.lt_of_admits hadm).2
  exact ⟨s₃, hback, takeBack_place hadm hlay h₂ hback⟩

end Progress

/-! ### The search -/

variable {b : Board} {ds : List Domino} {raised : Nat → Bool} {x y : Nat} {s : Progress}

theorem exists_tryCandidates {cs : List Candidate} (hcs : ∀ c ∈ cs, c ∈ candidates ds)
    (hx : x < b.rows) (hy : y < b.cols) (hs : s.Sized b ds)
    (honward : ∀ s : Progress, s.Sized b ds →
      ∃ r s', run b (candidates ds) raised x (y + 1) s = .ok (r, s')) :
    ∃ r s', tryCandidates b x y (fun s => run b (candidates ds) raised x (y + 1) s) cs s =
      .ok (r, s') := by
  induction cs generalizing s with
  | nil => exact ⟨false, s, rfl⟩
  | cons c cs ih =>
    have hc := hcs c (List.mem_cons_self ..)
    have hcs := fun c hc => hcs c (List.mem_cons_of_mem _ hc)
    obtain ⟨adm, hadm⟩ := hs.exists_admits hc hx hy
    cases adm with
    | false =>
      rw [tryCandidates_refused hadm]
      exact ih hcs hs
    | true =>
      obtain ⟨s₁, hlay, hs₁⟩ := hs.exists_place hc hadm
      obtain ⟨r, s₂, hon⟩ := honward s₁ hs₁
      rw [tryCandidates_laid hadm hlay, hon]
      cases r with
      | true => exact ⟨true, s₂, rfl⟩
      | false =>
        obtain ⟨s₃, hback, hs₃⟩ := hs.exists_takeBack_place hc hadm hlay
          ((run_eq_ok_iff.1 hon).restores rfl)
        obtain ⟨r, s', htry⟩ := ih hcs (hs.alike hs₃)
        refine ⟨r, s', ?_⟩
        show s₂.takeBack c x y >>= _ = _
        rw [hback]
        exact htry

theorem exists_run (hcols : 1 ≤ b.cols) (hs : s.Sized b ds) (hstart : x + 1 < 2 ^ 64 ∨ y < b.cols) :
    ∃ r s', run b (candidates ds) raised x y s = .ok (r, s') := by
  induction x, y, s using run.induct b raised with
  | case1 x y s hread => exact ⟨false, s.enter, run_calledOff hread⟩
  | case2 x y s hread hy x' hx ih =>
    obtain ⟨hlt, rfl⟩ := word_eq_ok_iff.1 hx
    rw [run_rowEnd (Bool.eq_false_iff.2 hread) hy hlt]
    exact ih (hs.alike (.enter _)) (.inr hcols)
  | case3 x y s hread hy f hx =>
    rw [word_of_lt (hstart.resolve_right (Nat.not_lt.2 hy))] at hx
    cases hx
  | case4 x y s hread hy hx =>
    exact ⟨true, s.enter, run_complete (Bool.eq_false_iff.2 hread) (Nat.lt_of_not_le hy) hx⟩
  | case5 x y s hread hy hx ihSet ihEmpty =>
    have hread := Bool.eq_false_iff.2 hread
    have hy := Nat.lt_of_not_le hy
    have hx := Nat.lt_of_not_le hx
    have hrow : x + 1 < 2 ^ 64 := Nat.lt_of_le_of_lt hx (Grid.rows_lt_word hy)
    obtain ⟨v, hset⟩ := Placement.exists_isSet (hs.shape.1 ▸ hx) (hs.shape.2 ▸ hy)
    cases v with
    | true =>
      rw [run_covered hread hy hx hset]
      exact ihSet (hs.alike (.enter _)) (.inl hrow)
    | false =>
      rw [run_empty hread hy hx hset]
      exact exists_tryCandidates (fun _ hc => hc) hx hy (hs.alike (.enter _))
        fun s hs => ihEmpty s hs (.inl hrow)

/-- A search from this cell on takes fewer steps than a word can count. -/
def StepsFit (b : Board) (ds : List Domino) (p : Placement) (x y : Nat) : Prop :=
  ∀ solved s, run b (candidates ds) never x y (.start p ds.length) = .ok (solved, s) →
    s.nodes < 2 ^ 64

theorem stepsFit_of_solveFrom {p : Placement} {v : Verdict} (h : solveFrom b p ds x y = .ok v) :
    StepsFit b ds p x y := by
  obtain ⟨-, solved, s, hrun, hsteps, -⟩ := solveFrom_eq_ok_iff.1 h
  intro solved' u hu
  obtain ⟨-, rfl⟩ := Prod.mk.inj (Except.ok.inj (hrun.symm.trans hu))
  exact hsteps

theorem exists_solveFrom {p : Placement} (hcols : 1 ≤ b.cols) (hp : p.HasShape b)
    (hstart : x + 1 < 2 ^ 64 ∨ y < b.cols) (hsteps : StepsFit b ds p x y) :
    ∃ v, solveFrom b p ds x y = .ok v := by
  have hreturns : ∃ r s, run b (candidates ds) never x y (.start p ds.length) = .ok (r, s) :=
    exists_run hcols (Progress.sized_start hp) hstart
  obtain ⟨r, s, hrun⟩ := hreturns
  exact ⟨_, (solveFrom_of_run hp hrun).trans (if_pos (hsteps r s hrun))⟩

end DominoTiling.Search
