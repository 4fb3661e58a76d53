import DominoTiling.Proofs.Counters
import DominoTiling.Proofs.Machine
import DominoTiling.Proofs.Returns

/-!
# The calls of a search

A call of the search makes one call at a time: at the end of a row the one that begins the next row,
at a covered cell and behind a domino that it has laid the one for the next cell. A property of the
cell where a call begins, and of the number of calls that wait for it, is `Inherited` if calls hand it
on in this way; it then holds of every call that a search is ever in the middle of
(`Inherited.of_reaches`).

So coordinates stay words, and from a cell of the board on there are no more calls inside each other
than `nesting`: one for each cell that is left, one more for the end of each row and one behind the
last row. With a column on the board the search comes to its end; without one, rows end for ever and
the row number runs out of bits (`solveFrom_ends`).
-/

namespace DominoTiling.Search

/-- The calls that a machine is in the middle of. -/
def Machine.calls (m : Machine) : Nat := m.frames.length + 1

structure Inherited (b : Board) (P : Nat → Nat → Nat → Prop) : Prop where
  rowEnd : ∀ k x y, P k x y → b.cols ≤ y → x + 1 < 2 ^ 64 → P (k + 1) (x + 1) 0
  onward : ∀ k x y, P k x y → x < b.rows → y < b.cols → P (k + 1) x (y + 1)

/-- Every waiting call has the property. Where it begins is known of those that have laid a domino. -/
def FramesHave (b : Board) (P : Nat → Nat → Nat → Prop) : List Frame → Prop
  | [] => True
  | .pass :: fs => (∃ x y, P fs.length x y) ∧ FramesHave b P fs
  | .trial x y _ _ :: fs => (P fs.length x y ∧ x < b.rows ∧ y < b.cols) ∧ FramesHave b P fs

def Control.Has (b : Board) (P : Nat → Nat → Nat → Prop) (k : Nat) : Control → Prop
  | .enter x y => P k x y
  | .attempt x y _ => P k x y ∧ x < b.rows ∧ y < b.cols
  | .leave _ => ∃ x y, P k x y

structure Machine.CallsHave (b : Board) (P : Nat → Nat → Nat → Prop) (m : Machine) : Prop where
  control : m.control.Has b P m.frames.length
  frames : FramesHave b P m.frames

section
variable {b : Board} {all : List Candidate} {P : Nat → Nat → Nat → Prop} {m m' : Machine}

theorem Machine.CallsHave.exists_call (h : m.CallsHave b P) : ∃ x y, P m.frames.length x y := by
  obtain ⟨control, fs, s⟩ := m
  have hcontrol := h.control
  cases control with
  | enter x y => exact ⟨x, y, hcontrol⟩
  | attempt x y cs => exact ⟨x, y, hcontrol.1⟩
  | leave found => exact hcontrol

theorem Inherited.of_moves {read : Bool} (hP : Inherited b P) (h : Moves b all read m m')
    (hm : m.CallsHave b P) : m'.CallsHave b P := by
  obtain ⟨hcontrol, hframes⟩ := hm
  cases h with
  | @calledOff x y => exact ⟨⟨x, y, hcontrol⟩, hframes⟩
  | @rowEnd x y _ _ hy hx => exact ⟨hP.rowEnd _ x y hcontrol hy hx, ⟨x, y, hcontrol⟩, hframes⟩
  | @complete x y => exact ⟨⟨x, y, hcontrol⟩, hframes⟩
  | @covered x y _ _ hy hx => exact ⟨hP.onward _ x y hcontrol hx hy, ⟨x, y, hcontrol⟩, hframes⟩
  | empty hy hx => exact ⟨⟨hcontrol, hx, hy⟩, hframes⟩
  | @exhausted _ x y => exact ⟨⟨x, y, hcontrol.1⟩, hframes⟩
  | refused => exact ⟨hcontrol, hframes⟩
  | @laid _ x y =>
    obtain ⟨hcall, hx, hy⟩ := hcontrol
    exact ⟨hP.onward _ x y hcall hx hy, ⟨hcall, hx, hy⟩, hframes⟩
  | stays => exact ⟨hcontrol, hframes⟩
  | passed => exact ⟨hframes.1, hframes.2⟩
  | @found _ x y => exact ⟨⟨x, y, hframes.1.1⟩, hframes.2⟩
  | undone => exact ⟨hframes.1, hframes.2⟩

theorem Inherited.of_reaches {x y : Nat} {s : Progress} (hP : Inherited b P) (hstart : P 0 x y)
    (h : Relation.ReflTransGen (Machine.Goes b all) ⟨.enter x y, [], s⟩ m) : m.CallsHave b P := by
  induction h with
  | refl => exact ⟨hstart, trivial⟩
  | tail _ hstep ih => exact hP.of_moves hstep.2 ih

end

/-! ### What calls hand on -/

/-- The calls inside each other from the cell `(x, y)` to behind the last row. -/
def nesting (b : Board) (x y : Nat) : Nat := (b.rows - x) * (b.cols + 1) - min y b.cols + 1

section
variable {b : Board} {x y : Nat}

theorem rows_sub_mul (hx : x < b.rows) :
    (b.rows - x) * (b.cols + 1) = (b.rows - (x + 1)) * (b.cols + 1) + (b.cols + 1) := by
  rw [← Nat.succ_mul]
  congr 1
  omega

theorem nesting_rowEnd (hx : x < b.rows) (hy : b.cols ≤ y) :
    nesting b x y = nesting b (x + 1) 0 + 1 := by
  rw [nesting, nesting, rows_sub_mul hx, Nat.min_eq_right hy, Nat.zero_min]
  omega

theorem nesting_onward (hx : x < b.rows) (hy : y < b.cols) :
    nesting b x y = nesting b x (y + 1) + 1 := by
  rw [nesting, nesting, rows_sub_mul hx, Nat.min_eq_left (Nat.le_of_lt hy), Nat.min_eq_left hy]
  omega

theorem inherited_nesting (hcols : 1 ≤ b.cols) (limit : Nat) :
    Inherited b fun k x y => (x < b.rows ∨ y < b.cols) ∧ k + nesting b x y ≤ limit := by
  constructor
  · intro k x y hcall hy _
    obtain ⟨hon, hlimit⟩ := hcall
    have hx : x < b.rows := hon.resolve_right (Nat.not_lt.2 hy)
    rw [nesting_rowEnd hx hy] at hlimit
    exact ⟨.inr hcols, by omega⟩
  · intro k x y hcall hx hy
    have hlimit := hcall.2
    rw [nesting_onward hx hy] at hlimit
    exact ⟨.inl hx, by omega⟩

theorem inherited_words : Inherited b fun _ x y => x < 2 ^ 64 ∧ y < 2 ^ 64 := by
  constructor
  · intro k x y _ _ hx
    exact ⟨hx, by decide⟩
  · intro k x y hcall hx hy
    exact ⟨hcall.1, Nat.lt_of_le_of_lt hy (Grid.cols_lt_word hx)⟩

end

/-! ### Where a search ends -/

variable {b : Board} {cs : List Candidate} {raised : Nat → Bool} {x y : Nat} {s : Progress}

theorem run_lastRow (hread : raised s.enter.nodes = false) (hy : b.cols ≤ y) (hx : 2 ^ 64 ≤ x + 1) :
    run b cs raised x y s = .error .overflow := by
  rw [run, if_neg (Bool.eq_false_iff.1 hread), if_pos hy]
  split
  · rename_i x' hx'
    rw [word_of_le hx] at hx'
    cases hx'
  · rename_i f hx'
    rw [word_of_le hx] at hx'
    rw [Except.error.inj hx']

theorem run_noColumns (hcols : b.cols = 0) : run b cs never x y s = .error .overflow := by
  induction x, y, s using run.induct b never with
  | case1 x y s hread => cases hread
  | case2 x y s _ hy x' hx ih =>
    obtain ⟨hlt, rfl⟩ := word_eq_ok_iff.1 hx
    rw [run_rowEnd rfl hy hlt]
    exact ih
  | case3 x y s _ hy f hx =>
    refine run_lastRow rfl hy (Nat.le_of_not_lt fun hlt => ?_)
    rw [word_of_lt hlt] at hx
    cases hx
  | case4 x y s _ hy => omega
  | case5 x y s _ hy => omega

theorem exists_solveFrom_iff {p : Placement} {ds : List Domino} :
    (∃ v, solveFrom b p ds x y = .ok v) ↔
      p.HasShape b ∧ 1 ≤ b.cols ∧ (x + 1 < 2 ^ 64 ∨ y < b.cols) ∧ StepsFit b ds p x y := by
  constructor
  · rintro ⟨v, hv⟩
    obtain ⟨hp, solved, s, hrun, -, -⟩ := solveFrom_eq_ok_iff.1 hv
    refine ⟨hp, ?_, ?_, stepsFit_of_solveFrom hv⟩
    · by_contra hcols
      rw [run_noColumns (by omega)] at hrun
      cases hrun
    · by_contra hstart
      rw [run_lastRow rfl (by omega) (by omega)] at hrun
      cases hrun
  · rintro ⟨hp, hcols, hstart, hsteps⟩
    exact exists_solveFrom hcols hp hstart hsteps

/-- Exactly the searches that begin on a board with a column, and not at the end of the last row there
can be, come to an end. They do so with the answer, or because no word can count their steps; the
other ones run out of row numbers. Nothing else stops a search. The row and the column of every call
on the way are words, and a search from a row of the board on is never in the middle of more calls
than one for each cell to come, one more for each row to come and one behind the last row. -/
theorem solveFrom_ends {p : Placement} {ds : List Domino} (hp : p.HasShape b) (hx : x < 2 ^ 64)
    (hy : y < 2 ^ 64) :
    (1 ≤ b.cols → ¬ (x = 2 ^ 64 - 1 ∧ b.cols ≤ y) →
      ∃ solved s, run b (candidates ds) never x y (.start p ds.length) = .ok (solved, s) ∧
        s.backtracks < s.nodes ∧
        (s.nodes < 2 ^ 64 → solveFrom b p ds x y =
          .ok ⟨solved, s.placement, ds.length, s.nodes, s.backtracks⟩) ∧
        (2 ^ 64 ≤ s.nodes → solveFrom b p ds x y = .error (.fault .overflow)) ∧
        Relation.ReflTransGen (Machine.Goes b (candidates ds))
          ⟨.enter x y, [], .start p ds.length⟩ ⟨.leave solved, [], s⟩) ∧
    (b.cols = 0 ∨ (x = 2 ^ 64 - 1 ∧ b.cols ≤ y) →
      solveFrom b p ds x y = .error (.fault .overflow)) ∧
    ∀ m, Relation.ReflTransGen (Machine.Goes b (candidates ds))
        ⟨.enter x y, [], .start p ds.length⟩ m →
      (∀ u v, m.control = .enter u v → u < 2 ^ 64 ∧ v < 2 ^ 64) ∧
      (1 ≤ b.cols → x < b.rows →
        m.calls ≤ (b.rows - x) * (b.cols + 1) - min y b.cols + 1) := by
  refine ⟨fun hcols hstart => ?_, fun hstart => ?_, fun m hm => ⟨fun u v hcontrol => ?_, ?_⟩⟩
  · have hfirst : x + 1 < 2 ^ 64 ∨ y < b.cols := by omega
    have hreturns : ∃ solved s, run b (candidates ds) never x y (.start p ds.length) =
        .ok (solved, s) := exists_run hcols (Progress.sized_start hp) hfirst
    obtain ⟨solved, s, hrun⟩ := hreturns
    have houtcome := run_eq_ok_iff.1 hrun
    have hcounts : s.backtracks + 0 + 1 ≤ 0 + s.nodes := houtcome.backtracks_le
    have hsolve := solveFrom_of_run hp hrun
    refine ⟨solved, s, hrun, by omega, fun hsteps => ?_, fun hsteps => ?_, houtcome.reaches []⟩
    · rw [hsolve, if_pos hsteps]
    · rw [hsolve, if_neg (Nat.not_lt.2 hsteps)]
  · refine solveFrom_of_run_fault hp ?_
    rcases hstart with hcols | ⟨hlast, hend⟩
    · exact run_noColumns hcols
    · exact run_lastRow rfl hend (by omega)
  · have hcalls := inherited_words.of_reaches ⟨hx, hy⟩ hm
    have hcall := hcalls.control
    rw [hcontrol] at hcall
    exact hcall
  · intro hcols hrow
    have hcalls := (inherited_nesting hcols (nesting b x y)).of_reaches
      ⟨.inl hrow, Nat.le_of_eq (Nat.zero_add _)⟩ hm
    obtain ⟨u, v, -, hlimit⟩ := hcalls.exists_call
    have hpos : 1 ≤ nesting b u v := Nat.le_add_left ..
    show m.frames.length + 1 ≤ nesting b x y
    omega

/-- Four cells take at most seven calls inside each other. Behind the end of the last row there can be,
and on a board of three rows without a cell, no call returns. -/
theorem solveFrom_ends_two_by_two :
    (∃ solved s, run ⟨2, 2, #[0, 1, 0, 1], rfl, by decide⟩ (candidates [⟨0, 1⟩, ⟨0, 0⟩]) never 0 0
      (.start ⟨2, 2, #[none, none, none, none], rfl, by decide⟩ 2) = .ok (solved, s)) ∧
    (∀ m, Relation.ReflTransGen
        (Machine.Goes ⟨2, 2, #[0, 1, 0, 1], rfl, by decide⟩ (candidates [⟨0, 1⟩, ⟨0, 0⟩]))
        ⟨.enter 0 0, [], .start ⟨2, 2, #[none, none, none, none], rfl, by decide⟩ 2⟩ m →
      m.calls ≤ 7) ∧
    solveFrom ⟨2, 2, #[0, 1, 0, 1], rfl, by decide⟩ ⟨2, 2, #[none, none, none, none], rfl, by decide⟩
      [⟨0, 1⟩, ⟨0, 0⟩] (2 ^ 64 - 1) 2 = .error (.fault .overflow) ∧
    solveFrom ⟨3, 0, #[], rfl, by decide⟩ ⟨3, 0, #[], rfl, by decide⟩ [⟨0, 1⟩] 0 0 =
      .error (.fault .overflow) := by
  obtain ⟨hreturns, -, hcalls⟩ := solveFrom_ends (b := ⟨2, 2, #[0, 1, 0, 1], rfl, by decide⟩)
    (p := ⟨2, 2, #[none, none, none, none], rfl, by decide⟩) ⟨rfl, rfl⟩ (x := 0) (y := 0) (by decide)
    (by decide)
  obtain ⟨solved, s, hrun, -⟩ := hreturns (by decide) (by decide)
  refine ⟨⟨solved, s, hrun⟩, fun m hm => (hcalls m hm).2 (by decide) (by decide), ?_, ?_⟩
  · exact (solveFrom_ends ⟨rfl, rfl⟩ (by decide) (by decide)).2.1 (.inr ⟨rfl, Nat.le_refl 2⟩)
  · exact (solveFrom_ends ⟨rfl, rfl⟩ (by decide) (by decide)).2.1 (.inl rfl)

end DominoTiling.Search
