import DominoTiling.Proofs.Calls

/-!
# Searches that are called off

Nothing tells a call whether the one inside it has failed or has been called off, so once the flag is
up every open loop still tries the candidates it has left. Each of them costs one step at most, the
one that finds the flag raised (`Outcome.nodes_le_of_raised`). A loop that is open has laid a domino,
so there is at most one for every two open cells, and the steps that are left are bounded by the size
of the board and of the list, not by what is still unexplored (`Outcome.of_raised`).

The flag may go up at any step, on the way back out of a deep search as well. Here a step is one that
a machine reaches (`Machine.Advances`), and the search is known to come back from there even where
without the flag it would run out of rows.
-/

namespace DominoTiling

/-! ### Open cells -/

namespace Placement

/-- The number of cells that hold nothing. -/
def openCells (p : Placement) : Nat := p.cells.countP Option.isNone

theorem openCells_le (p : Placement) : p.openCells ≤ p.rows * p.cols :=
  Nat.le_trans Array.countP_le_size (Nat.le_of_eq p.size_cells)

theorem openCells_set {p p' : Placement} {x y i : Nat} (h : p.set x y (some i) = .ok p')
    (hfree : p.cells[x * p.cols + y]? = some none) : p'.openCells + 1 = p.openCells := by
  obtain ⟨k, hk, h⟩ := bind_eq_ok_iff.1 h
  obtain rfl := Grid.index_eq_ok hk
  split at h
  · rename_i hlt
    obtain rfl := Except.ok.inj h
    have hcell : p.cells[x * p.cols + y] = none :=
      Option.some.inj ((Array.getElem?_eq_getElem hlt).symm.trans hfree)
    have hmem : none ∈ p.cells := hcell ▸ Array.getElem_mem hlt
    have hpos : 0 < p.cells.countP Option.isNone := Array.countP_pos_iff.2 ⟨none, hmem, rfl⟩
    simp only [openCells, Array.countP_set, hcell, Option.isNone_none, Option.isNone_some,
      ↓reduceIte, Bool.false_eq_true]
    omega
  · cases h

end Placement

namespace Search
variable {b : Board} {all : List Candidate} {raised : Nat → Bool} {c : Candidate} {x y : Nat}
  {s s' s₁ : Progress}

/-- An admitted candidate covers two open cells. -/
theorem Progress.openCells_place (hs : s.placement.HasShape b) (hadm : s.admits b c x y = .ok true)
    (hlay : s.place c x y = .ok s₁) :
    s₁.placement.openCells + 2 = s.placement.openCells := by
  obtain ⟨hfree, hfree'⟩ := cells_of_admits hadm
  obtain ⟨hmate, -⟩ := Domino.fits_eq_true (admits_eq_true_iff.1 hadm).2
  have hcell := Orientation.lt_of_mate_lt hmate
  obtain ⟨used, p₁, p₂, -, h₁, h₂, rfl⟩ := place_eq_ok hlay
  obtain ⟨-, hcols, hcells⟩ := Grid.set_eq_ok h₁
  have hother : p₁.cells[(c.orientation.mate (x, y)).1 * p₁.cols +
      (c.orientation.mate (x, y)).2]? = some none := by
    rw [hcols, hcells, if_neg, hfree']
    intro hpos
    rw [hs.2] at hpos
    exact c.orientation.mate_ne (x, y) (Prod.ext_iff.2 (Grid.pos_inj hmate.2 hcell.2 hpos))
  have hfirst := Placement.openCells_set h₁ hfree
  have hsecond := Placement.openCells_set h₂ hother
  show Placement.openCells p₂ + 2 = _
  omega

/-! ### The steps that are left -/

/-- The candidates that a task has left to try. -/
def Task.untried : Task → List Candidate
  | .cover _ _ => []
  | .attempt _ _ cs => cs

namespace Outcome
variable {t : Task} {r : Bool} {k : Nat}

/-- Under a raised flag a call takes one step, and a loop one for each candidate at most. -/
theorem nodes_le_of_raised (h : Outcome b all raised t s r s')
    (hraised : ∀ n, s.nodes < n → raised n = true) :
    r = false ∧ s'.nodes ≤ s.nodes + t.steps + t.untried.length := by
  induction h with
  | calledOff => exact ⟨rfl, Nat.le_refl _⟩
  | @rowEnd _ _ s _ _ hread | @complete _ _ s hread | @covered _ _ s _ _ hread
  | @empty _ _ s _ _ hread =>
    rw [hraised s.enter.nodes (Nat.lt_succ_self _)] at hread
    cases hread
  | exhausted => exact ⟨rfl, Nat.le_refl _⟩
  | refused _ _ ih =>
    obtain ⟨hr, hle⟩ := ih hraised
    exact ⟨hr, Nat.le_succ_of_le hle⟩
  | found _ hlay _ ih =>
    rw [← Progress.nodes_place hlay] at hraised
    cases (ih hraised).1
  | undone _ hlay onward hback _ ih ihNext =>
    have hlaid := Progress.nodes_place hlay
    have hbacked := Progress.nodes_takeBack hback
    have hinner := (ih (hlaid ▸ hraised)).2
    have hle := onward.nodes_le
    obtain ⟨hr, hrest⟩ := ihNext fun n hn => hraised n (by omega)
    refine ⟨hr, ?_⟩
    simp only [Task.steps, Task.untried, List.length_nil, List.length_cons] at hinner hrest ⊢
    omega

/-- What a search still does after step `k` has found the flag raised. -/
theorem of_raised (h : Outcome b all raised t s r s') (hs : s.placement.HasShape b)
    (ht : t.untried.length ≤ all.length) (hraised : ∀ n, k ≤ n → raised n = true)
    (hlow : s.nodes < k) (hhigh : k ≤ s'.nodes) :
    r = false ∧ s'.nodes ≤ k + (all.length - 1) * (s.placement.openCells / 2) := by
  induction h with
  | calledOff => exact ⟨rfl, Nat.le_trans hlow (Nat.le_add_right ..)⟩
  | @rowEnd _ _ s _ _ hread _ _ _ ih | @covered _ _ s _ _ hread _ _ _ _ ih =>
    have hne : k ≠ s.enter.nodes := by
      rintro rfl
      rw [hraised _ (Nat.le_refl _)] at hread
      cases hread
    exact ih hs (Nat.zero_le _) (Nat.lt_of_le_of_ne hlow (Ne.symm hne)) hhigh
  | @complete _ _ s hread =>
    rw [hraised _ hhigh] at hread
    cases hread
  | @empty _ _ s _ _ hread _ _ _ _ ih =>
    have hne : k ≠ s.enter.nodes := by
      rintro rfl
      rw [hraised _ (Nat.le_refl _)] at hread
      cases hread
    exact ih hs (Nat.le_refl _) (Nat.lt_of_le_of_ne hlow (Ne.symm hne)) hhigh
  | exhausted => exact absurd hhigh (Nat.not_le.2 hlow)
  | refused _ _ ih => exact ih hs (Nat.le_of_succ_le ht) hlow hhigh
  | found hadm hlay _ ih =>
    rw [← Progress.nodes_place hlay] at hlow
    cases (ih (Progress.hasShape_place hs hlay) (Nat.zero_le _) hlow hhigh).1
  | @undone _ _ c cs s s₁ s₂ s₃ s' r hadm hlay onward hback next ih ihNext =>
    have hopen := Progress.openCells_place hs hadm hlay
    have hlaid := Progress.nodes_place hlay
    have hbacked := Progress.nodes_takeBack hback
    have hs₃ := Progress.takeBack_place hadm hlay (onward.restores rfl) hback
    by_cases hinside : k ≤ s₂.nodes
    · -- the flag went up behind this candidate: one step for each of those that come after it
      obtain ⟨-, hinner⟩ := ih (Progress.hasShape_place hs hlay) (Nat.zero_le _) (hlaid ▸ hlow) hinside
      obtain ⟨hr, hrest⟩ := next.nodes_le_of_raised fun n hn => hraised n (by omega)
      refine ⟨hr, ?_⟩
      have hhalf : s.placement.openCells / 2 = s₁.placement.openCells / 2 + 1 := by omega
      rw [hhalf, Nat.mul_add_one]
      simp only [Task.steps, Task.untried, List.length_cons] at hrest ht
      omega
    · have hnext := ihNext (hs₃.placement ▸ hs) (Nat.le_of_succ_le ht) (by omega) hhigh
      rw [hs₃.placement] at hnext
      exact hnext

end Outcome

/-! ### Searches that come back -/

section
variable {m : Machine}

/-- From here on a search only goes from the end of one row to the end of the next one, until no word
is left for the row. -/
def RowsOnly (b : Board) (x y : Nat) : Prop := b.cols = 0 ∨ 2 ^ 64 ≤ x + 1 ∧ b.cols ≤ y

theorem resume_passes {fs : List Frame} (hfs : ∀ f ∈ fs, f = .pass) (r : Bool × Progress) :
    resume b all raised fs r = .ok r := by
  induction fs with
  | nil => rfl
  | cons f fs ih =>
    obtain rfl := hfs f (List.mem_cons_self ..)
    exact ih fun f hf => hfs f (List.mem_cons_of_mem _ hf)

/-- Such a search has been called off, or has not found the flag raised. -/
theorem leaves_of_rowsOnly (hstart : RowsOnly b x y)
    (h : Relation.ReflTransGen (Machine.Advances b all raised) ⟨.enter x y, [], s⟩ m) :
    (∀ f ∈ m.frames, f = .pass) ∧
      (m.control = .leave false ∨
        (∃ x' y', m.control = .enter x' y' ∧ RowsOnly b x' y') ∧
          (s.nodes < m.progress.nodes → raised m.progress.nodes = false)) := by
  induction h with
  | refl => exact ⟨by simp, .inr ⟨⟨x, y, rfl, hstart⟩, fun h => absurd h (Nat.lt_irrefl _)⟩⟩
  | @tail m m' _ hstep ih =>
    obtain ⟨hfs, hcontrol⟩ := ih
    obtain ⟨hend, hmoves⟩ := hstep
    obtain ⟨control, fs, u⟩ := m
    generalize hread : raised _ = read at hmoves
    rcases hcontrol with hleave | ⟨⟨x', y', henter, hrows⟩, -⟩
    · obtain rfl : control = .leave false := hleave
      cases hmoves with
      | stays => cases hend
      | passed => exact ⟨fun f hf => hfs f (List.mem_cons_of_mem _ hf), .inl rfl⟩
      | undone => cases hfs _ (List.mem_cons_self ..)
    · obtain rfl : control = .enter x' y' := henter
      have hy : b.cols ≤ y' := by
        rcases hrows with hcols | hlast
        · omega
        · exact hlast.2
      cases hmoves with
      | calledOff => exact ⟨hfs, .inl rfl⟩
      | rowEnd _ hx =>
        have hcols : b.cols = 0 := hrows.resolve_right fun hlast => Nat.not_lt.2 hlast.1 hx
        exact ⟨by simpa using hfs, .inr ⟨⟨x' + 1, 0, rfl, .inl hcols⟩, fun _ => hread⟩⟩
      | complete hy' => exact absurd hy (Nat.not_le.2 hy')
      | covered hy' => exact absurd hy (Nat.not_le.2 hy')
      | empty hy' => exact absurd hy (Nat.not_le.2 hy')

/-- A search that has found the flag raised has an outcome. -/
theorem exists_run_of_raised {ds : List Domino} (hs : s.Sized b ds)
    (hm : Relation.ReflTransGen (Machine.Advances b (candidates ds) raised) ⟨.enter x y, [], s⟩ m)
    (hnodes : s.nodes < m.progress.nodes) (hread : raised m.progress.nodes = true) :
    ∃ r s', run b (candidates ds) raised x y s = .ok (r, s') := by
  by_cases hrows : RowsOnly b x y
  · obtain ⟨hfs, hleave | ⟨-, hfalse⟩⟩ := leaves_of_rowsOnly hrows hm
    · have hvalue := Machine.value_of_reaches hm
      rw [Machine.value_enter] at hvalue
      refine ⟨false, m.progress, hvalue.symm.trans ?_⟩
      rw [Machine.value, hleave]
      exact resume_passes hfs _
    · rw [hfalse hnodes] at hread
      cases hread
  · have hcols : 1 ≤ b.cols := Nat.one_le_iff_ne_zero.2 fun hcols => hrows (.inl hcols)
    refine exists_run hcols hs ?_
    by_contra hlast
    exact hrows (.inr (by omega))

/-- A search that has found the flag raised comes back without success and with everything as it was,
whatever it has left unexplored. With `n` dominoes it enters at most `2 * n - 1` more calls for every
two cells of the board. -/
theorem calledOff_stops {ds : List Domino} (hraised : ∀ n, raised n = true → raised (n + 1) = true)
    (hs : s.Sized b ds)
    (hm : Relation.ReflTransGen (Machine.Advances b (candidates ds) raised) ⟨.enter x y, [], s⟩ m)
    (hnodes : s.nodes < m.progress.nodes) (hread : raised m.progress.nodes = true) :
    ∃ s', run b (candidates ds) raised x y s = .ok (false, s') ∧
      Relation.ReflTransGen (Machine.Advances b (candidates ds) raised) m ⟨.leave false, [], s'⟩ ∧
      s'.placement = s.placement ∧ s'.inUse = s.inUse ∧
      s'.nodes ≤ m.progress.nodes + (2 * ds.length - 1) * (b.rows * b.cols / 2) := by
  obtain ⟨r, s', hrun⟩ := exists_run_of_raised hs hm hnodes hread
  have houtcome := run_eq_ok_iff.1 hrun
  have hrest := Machine.reaches_of_reaches (houtcome.advances []) hm
  have hlater : ∀ n, m.progress.nodes ≤ n → raised n = true := by
    intro n hn
    obtain ⟨d, rfl⟩ := Nat.exists_eq_add_of_le hn
    clear hn
    induction d with
    | zero => exact hread
    | succ d ih => exact hraised _ ih
  obtain ⟨rfl, hle⟩ := houtcome.of_raised hs.shape (Nat.zero_le _) hlater hnodes
    (Machine.nodes_le_of_reaches hrest)
  have halike := houtcome.restores rfl
  refine ⟨s', hrun, hrest, halike.placement, halike.inUse, Nat.le_trans hle ?_⟩
  rw [length_candidates, ← hs.shape.1, ← hs.shape.2]
  have hopen := s.placement.openCells_le
  exact Nat.add_le_add_left (Nat.mul_le_mul_left _ (Nat.div_le_div_right hopen)) _

/-- The flag goes up while the first of two dominoes lies on a board of four cells. -/
theorem calledOff_stops_two_by_two :
    ∃ s', run ⟨2, 2, #[0, 0, 0, 0], rfl, by decide⟩ (candidates [⟨0, 0⟩, ⟨0, 0⟩])
        (fun n => decide (3 ≤ n)) 0 0
        (.start ⟨2, 2, #[none, none, none, none], rfl, by decide⟩ 2) = .ok (false, s') ∧
      s'.inUse = .empty 2 ∧ s'.nodes ≤ 9 := by
  have hpath : Relation.ReflTransGen
      (Machine.Advances ⟨2, 2, #[0, 0, 0, 0], rfl, by decide⟩ (candidates [⟨0, 0⟩, ⟨0, 0⟩])
        (fun n => decide (3 ≤ n)))
      ⟨.enter 0 0, [], .start ⟨2, 2, #[none, none, none, none], rfl, by decide⟩ 2⟩
      ⟨.leave false, [.pass, .trial 0 0 ⟨0, ⟨0, 0⟩, .horizontal⟩
          [⟨0, ⟨0, 0⟩, .vertical⟩, ⟨1, ⟨0, 0⟩, .horizontal⟩, ⟨1, ⟨0, 0⟩, .vertical⟩]],
        ⟨⟨2, 2, #[some 0, some 0, none, none], rfl, by decide⟩, ⟨#[1]⟩, 3, 0⟩⟩ :=
    (((Relation.ReflTransGen.single ⟨rfl, .empty (by decide) (by decide) rfl⟩).tail
      ⟨rfl, .laid rfl rfl⟩).tail ⟨rfl, .covered (by decide) (by decide) rfl⟩).tail
      ⟨rfl, .calledOff⟩
  have hup : ∀ n, decide (3 ≤ n) = true → decide (3 ≤ n + 1) = true := by
    intro n hn
    exact decide_eq_true (Nat.le_succ_of_le (of_decide_eq_true hn))
  obtain ⟨s', hrun, -, -, hused, hle⟩ := calledOff_stops hup (Progress.sized_start ⟨rfl, rfl⟩) hpath
    (Nat.zero_lt_succ 2) rfl
  exact ⟨s', hrun, hused, hle⟩

end
end Search
end DominoTiling
