import DominoTiling.Proofs.CallingOff

/-!
# What the counters of a search account for

A search counts its calls and the dominoes that it takes back. How many dominoes it lays it does not
count; that is read off the machine that makes the search, which lays one wherever the next candidate
is admitted (`Machine.layings`). A domino that has been laid is taken back or lies on two cells that
were open (`Outcome.exists_lays`), so the three numbers and the cells that the search has covered
determine each other.

A search with success makes one call for each cell from its start on, for each row end, and one behind
the last row, and beside these at least one for each domino that it takes back
(`Outcome.depth_le`). At any moment the calls that have been counted are at least those that the
search is in the middle of and one for each domino taken back (`backtracks_add_counted_le`).
-/

namespace DominoTiling

/-! ### Cells that have been covered -/

namespace Placement
variable {p q : Placement}

/-- The number of cells that are open in `p` and covered in `q`. -/
def newlyCovered (p q : Placement) : Nat :=
  (p.cells.toList.zip q.cells.toList).countP fun c => c.1.isNone && c.2.isSome

theorem countP_isNone_eq {l l' : List (Option Nat)} (hlength : l.length = l'.length)
    (hkeep : ∀ k i : Nat, l[k]? = some (some i) → l'[k]? = some (some i)) :
    l.countP Option.isNone =
      l'.countP Option.isNone + (l.zip l').countP fun c => c.1.isNone && c.2.isSome := by
  induction l generalizing l' with
  | nil =>
    obtain rfl := List.length_eq_zero_iff.1 hlength.symm
    rfl
  | cons o l ih =>
    cases l' with
    | nil => simp at hlength
    | cons o' l' =>
      have hrest := ih (Nat.succ.inj hlength) fun k i hk => hkeep (k + 1) i hk
      cases o with
      | none => cases o' <;> simp [hrest] <;> omega
      | some i =>
        obtain rfl : o' = some i := Option.some.inj (hkeep 0 i rfl)
        simp [hrest]

theorem openCells_eq (hsize : p.cells.size = q.cells.size)
    (hkeep : ∀ k i : Nat, p.cells[k]? = some (some i) → q.cells[k]? = some (some i)) :
    p.openCells = q.openCells + p.newlyCovered q := by
  simp only [openCells, newlyCovered, ← Array.countP_toList]
  exact countP_isNone_eq (by simpa using hsize) (by simpa using hkeep)

end Placement

namespace Search

/-! ### Dominoes that have been laid -/

/-- Does the next step lay a domino? -/
def Machine.laysNext (b : Board) : Machine → Bool
  | ⟨.attempt x y (c :: _), _, s⟩ =>
    match s.admits b c x y with
    | .ok fits => fits
    | .error _ => false
  | _ => false

/-- The number of dominoes laid in so many steps, where nothing calls the search off. -/
def Machine.layings (b : Board) (all : List Candidate) : Nat → Machine → Nat
  | 0, _ => 0
  | n + 1, m =>
    (m.laysNext b).toNat +
      match m.step b all false with
      | .ok m' => layings b all n m'
      | .error _ => 0

/-- After a number of steps `m` has come to `m'`, and `k` dominoes have been laid on the way. -/
def Machine.Lays (b : Board) (all : List Candidate) (k : Nat) (m m' : Machine) : Prop :=
  ∃ n, ∀ j, m.layings b all (n + j) = k + m'.layings b all j

section
variable {b : Board} {all : List Candidate} {m m' m'' : Machine} {k k' : Nat} {read : Bool}

theorem Machine.layings_left {r : Bool} {s : Progress} (n : Nat) :
    Machine.layings b all n ⟨.leave r, [], s⟩ = 0 := by
  induction n with
  | zero => rfl
  | succ n ih => simpa [layings, laysNext, step] using ih

namespace Machine.Lays

theorem refl (m : Machine) : m.Lays b all 0 m := ⟨0, fun j => by simp⟩

theorem trans (h : m.Lays b all k m') (h' : m'.Lays b all k' m'') : m.Lays b all (k + k') m'' := by
  obtain ⟨n, hn⟩ := h
  obtain ⟨n', hn'⟩ := h'
  refine ⟨n + n', ?_⟩
  intro j
  rw [Nat.add_assoc, hn, hn', Nat.add_assoc]

theorem of_moves (h : Moves b all false m m') : m.Lays b all (m.laysNext b).toNat m' := by
  refine ⟨1, ?_⟩
  intro j
  rw [Nat.add_comm 1 j, layings, h.step]

/-! A step that lays nothing, first or last. -/

theorem head (h : Moves b all false m m') (hm : m.laysNext b = false) (h' : m'.Lays b all k m'') :
    m.Lays b all k m'' := by
  simpa [hm] using (of_moves h).trans h'

theorem tail (h : m.Lays b all k m') (h' : Moves b all false m' m'') (hm : m'.laysNext b = false) :
    m.Lays b all k m'' := by
  simpa [hm] using h.trans (of_moves h')

theorem laid {x y : Nat} {c : Candidate} {cs : List Candidate} {fs : List Frame} {s s₁ : Progress}
    (hadm : s.admits b c x y = .ok true) (hlay : s.place c x y = .ok s₁)
    (h : Machine.Lays b all k ⟨.enter x (y + 1), .trial x y c cs :: fs, s₁⟩ m') :
    Machine.Lays b all (k + 1) ⟨.attempt x y (c :: cs), fs, s⟩ m' := by
  have hfirst := (of_moves (.laid hadm hlay)).trans h
  simpa [laysNext, hadm, Nat.add_comm] using hfirst

end Machine.Lays

/-- A domino that has been laid is taken back or lies on two cells that were open. -/
theorem Outcome.exists_lays {t : Task} {s s' : Progress} {r : Bool}
    (h : Outcome b all never t s r s') (hs : s.placement.HasShape b) (fs : List Frame) :
    ∃ k, Machine.Lays b all k ⟨t.control, fs, s⟩ ⟨.leave r, fs, s'⟩ ∧
      2 * k + s'.placement.openCells + 2 * s.backtracks =
        2 * s'.backtracks + s.placement.openCells := by
  induction h generalizing fs with
  | calledOff hread => cases hread
  | rowEnd _ hy hx _ ih =>
    obtain ⟨k, hlays, hcount⟩ := ih hs (.pass :: fs)
    exact ⟨k, (hlays.tail .passed rfl).head (.rowEnd hy hx) rfl, hcount⟩
  | @complete _ _ s _ hy hx =>
    refine ⟨0, (Machine.Lays.refl _).head (.complete hy hx) rfl, ?_⟩
    simp [Progress.enter, Nat.add_comm]
  | covered _ hy hx hset _ ih =>
    obtain ⟨k, hlays, hcount⟩ := ih hs (.pass :: fs)
    exact ⟨k, (hlays.tail .passed rfl).head (.covered hy hx hset) rfl, hcount⟩
  | empty _ hy hx hset _ ih =>
    obtain ⟨k, hlays, hcount⟩ := ih hs fs
    exact ⟨k, hlays.head (.empty hy hx hset) rfl, hcount⟩
  | exhausted =>
    refine ⟨0, (Machine.Lays.refl _).head .exhausted rfl, ?_⟩
    simp [Nat.add_comm]
  | @refused x y c cs s _ _ hadm _ ih =>
    obtain ⟨k, hlays, hcount⟩ := ih hs fs
    refine ⟨k, hlays.head (.refused hadm) ?_, hcount⟩
    simp [Machine.laysNext, Task.control, hadm]
  | @found x y c cs s s₁ s' hadm hlay _ ih =>
    obtain ⟨k, hlays, hcount⟩ := ih (Progress.hasShape_place hs hlay) (.trial x y c cs :: fs)
    have hopen := Progress.openCells_place hs hadm hlay
    have hsame := Progress.backtracks_place hlay
    exact ⟨k + 1, .laid hadm hlay (hlays.tail .found rfl), by omega⟩
  | @undone x y c cs s s₁ s₂ s₃ s' r hadm hlay onward hback _ ih ihNext =>
    have hs₂ := onward.restores rfl
    have hs₃ := Progress.takeBack_place hadm hlay hs₂ hback
    obtain ⟨k, hlays, hcount⟩ := ih (Progress.hasShape_place hs hlay) (.trial x y c cs :: fs)
    obtain ⟨k', hlays', hcount'⟩ := ihNext (hs₃.placement ▸ hs) fs
    have hopen := Progress.openCells_place hs hadm hlay
    have hsame := Progress.backtracks_place hlay
    have htaken := Progress.backtracks_takeBack hback
    rw [hs₂.placement] at hcount
    rw [hs₃.placement] at hcount'
    exact ⟨k + k' + 1, .laid hadm hlay ((hlays.tail (.undone hback) rfl).trans hlays'), by omega⟩

end

/-! ### Calls that have been counted -/

/-- The calls that a task has before it where nothing is taken back. -/
def Task.depth (b : Board) : Task → Nat
  | .cover x y => nesting b x y
  | .attempt x y _ => nesting b x (y + 1)

/-- The task begins at a cell of the board or at the end of one of its rows, or behind the last row. -/
def Task.Inside (b : Board) : Task → Prop
  | .cover x y => x < b.rows ∨ y < b.cols
  | .attempt x y _ => x < b.rows ∧ y < b.cols

namespace Outcome
variable {b : Board} {all : List Candidate} {raised : Nat → Bool} {t : Task} {s s' : Progress}
  {r : Bool}

theorem le_backtracks (h : Outcome b all raised t s r s') : s.backtracks ≤ s'.backtracks := by
  induction h with
  | calledOff | complete | exhausted => exact Nat.le_refl _
  | rowEnd _ _ _ _ ih | covered _ _ _ _ _ ih | empty _ _ _ _ _ ih => exact ih
  | refused _ _ ih => exact ih
  | found _ hlay _ ih =>
    rw [Progress.backtracks_place hlay] at ih
    exact ih
  | undone _ hlay _ hback _ ih ihNext =>
    rw [Progress.backtracks_place hlay] at ih
    rw [Progress.backtracks_takeBack hback] at ihNext
    omega

/-- Success takes the calls before it and one more at least for each domino taken back. -/
theorem depth_le (h : Outcome b all raised t s r s') (hr : r = true) (hcols : 1 ≤ b.cols)
    (ht : t.Inside b) :
    s'.backtracks + s.nodes + t.depth b ≤ s.backtracks + s'.nodes ∧
      (s'.backtracks = s.backtracks → s'.nodes = s.nodes + t.depth b) := by
  induction h with
  | calledOff => cases hr
  | @rowEnd x y s _ _ _ hy _ _ ih =>
    have hx : x < b.rows := ht.resolve_right (Nat.not_lt.2 hy)
    have hih := ih hr (.inr hcols)
    simp only [Task.depth, nesting_rowEnd hx hy, Progress.enter] at hih ⊢
    omega
  | @complete x y s _ hy hx =>
    simp only [Task.depth, nesting, Nat.sub_eq_zero_of_le hx, Progress.enter]
    omega
  | @covered x y s _ _ _ hy hx _ _ ih =>
    have hih := ih hr (.inl hx)
    simp only [Task.depth, nesting_onward hx hy, Progress.enter] at hih ⊢
    omega
  | @empty x y s _ _ _ hy hx _ _ ih =>
    have hih := ih hr ⟨hx, hy⟩
    simp only [Task.depth, nesting_onward hx hy, Progress.enter] at hih ⊢
    omega
  | exhausted => cases hr
  | refused _ _ ih => exact ih hr ht
  | @found x y _ _ s s₁ s' _ hlay _ ih =>
    have hih := ih rfl (.inl ht.1)
    simp only [Task.depth, Progress.nodes_place hlay, Progress.backtracks_place hlay] at hih ⊢
    exact hih
  | @undone x y _ _ s s₁ s₂ s₃ s' _ _ hlay onward hback next _ ihNext =>
    have hnext := ihNext hr ht
    have hless := onward.backtracks_le
    have hmore := onward.le_backtracks
    have hlater := next.le_backtracks
    simp only [Task.depth, Task.steps, Progress.nodes_place hlay, Progress.backtracks_place hlay,
      Progress.nodes_takeBack hback, Progress.backtracks_takeBack hback] at *
    omega

end Outcome

/-- The calls that a machine is in the middle of and that have been counted. -/
def Machine.counted : Machine → Nat
  | ⟨.enter _ _, fs, _⟩ => fs.length
  | ⟨_, fs, _⟩ => fs.length + 1

section
variable {b : Board} {all : List Candidate} {m m' : Machine} {read : Bool}

theorem Moves.backtracks_add_counted_le (h : Moves b all read m m')
    (hm : m.progress.backtracks + m.counted ≤ m.progress.nodes) :
    m'.progress.backtracks + m'.counted ≤ m'.progress.nodes := by
  cases h with
  | calledOff | rowEnd | complete | covered | empty => exact Nat.succ_le_succ hm
  | exhausted | refused | stays => exact hm
  | passed | found => exact Nat.le_of_succ_le hm
  | laid _ hlay =>
    simp only [Machine.counted, Progress.nodes_place hlay, Progress.backtracks_place hlay] at hm ⊢
    simpa using hm
  | undone hback =>
    simp only [Machine.counted, Progress.nodes_takeBack hback, Progress.backtracks_takeBack hback,
      List.length_cons] at hm ⊢
    omega

theorem Moves.counted_pos (h : Moves b all read m m') : 0 < m'.counted := by
  cases h <;> exact Nat.succ_pos _

/-- Before each domino that is taken back a call has been counted, and so have been the calls that the
search is in the middle of. -/
theorem backtracks_add_counted_le {raised : Nat → Bool} {x y : Nat} {p : Placement} {length : Nat}
    (h : Relation.ReflTransGen (Machine.Advances b all raised) ⟨.enter x y, [], .start p length⟩ m) :
    m.progress.backtracks + m.counted ≤ m.progress.nodes := by
  induction h with
  | refl => exact Nat.le_refl _
  | tail _ hstep ih => exact hstep.2.backtracks_add_counted_le ih

end

/-! ### The counters of an answer -/

variable {b : Board} {ds : List Domino} {p : Placement} {x y : Nat}

/-- A search that ends has laid a number of dominoes, whatever the number of steps it is given from
some number on. Where it has found a cover, those it has not taken back lie on the cells that it has
covered, and it has made one call for each cell and row end from the start on, one behind the last row
and at least one for each domino taken back. Where it has not, all have been taken back. At no step
have as many dominoes been taken back as calls been made, whatever a flag reads. -/
theorem counters_account {v : Verdict} (hcols : 1 ≤ b.cols) (hx : x < b.rows) (hy : y ≤ b.cols)
    (h : solveFrom b p ds x y = .ok v) :
    ∃ laid,
      (∃ n, ∀ steps, n ≤ steps → Machine.layings b (candidates ds) steps
        ⟨.enter x y, [], .start p ds.length⟩ = laid) ∧
      (v.solved = true →
        (b.rows - x) * (b.cols + 1) - y + 1 + v.backtracks ≤ v.nodes ∧
        (v.backtracks = 0 → v.nodes = (b.rows - x) * (b.cols + 1) - y + 1) ∧
        2 * laid = 2 * v.backtracks + p.newlyCovered v.placement) ∧
      (v.solved = false → 1 + v.backtracks ≤ v.nodes ∧ v.backtracks = laid) ∧
      v.backtracks < v.nodes ∧
      ∀ raised m, Relation.ReflTransGen (Machine.Advances b (candidates ds) raised)
          ⟨.enter x y, [], .start p ds.length⟩ m →
        m = ⟨.enter x y, [], .start p ds.length⟩ ∨ m.progress.backtracks < m.progress.nodes := by
  obtain ⟨hp, solved, s, hrun, -, rfl⟩ := solveFrom_eq_ok_iff.1 h
  have houtcome := run_eq_ok_iff.1 hrun
  have hcalls : s.backtracks + 0 + 1 ≤ 0 + s.nodes := houtcome.backtracks_le
  obtain ⟨laid, ⟨n, hlays⟩, hcount⟩ := houtcome.exists_lays hp []
  have hcount : 2 * laid + s.placement.openCells + 2 * 0 = 2 * s.backtracks + p.openCells := hcount
  refine ⟨laid, ⟨n, ?_⟩, ?_, ?_, by dsimp only; omega, ?_⟩
  · intro steps hsteps
    obtain ⟨j, rfl⟩ := Nat.exists_eq_add_of_le hsteps
    exact (hlays j).trans (by rw [Machine.layings_left, Nat.add_zero])
  · rintro rfl
    obtain ⟨hle, heq⟩ := houtcome.depth_le rfl hcols (.inl hx)
    have hopen : p.openCells = s.placement.openCells + p.newlyCovered s.placement := by
      refine Placement.openCells_eq ?_ fun k i hk => houtcome.keeps hk
      rw [p.size_cells, s.placement.size_cells, houtcome.shape.1, houtcome.shape.2]
      rfl
    simp only [Task.depth, nesting, Nat.min_eq_left hy, Progress.start] at hle heq ⊢
    refine ⟨by omega, ?_, by omega⟩
    intro hnone
    rw [heq hnone, Nat.zero_add]
  · rintro rfl
    rw [(houtcome.restores rfl).placement] at hcount
    have hcount : 2 * laid + p.openCells + 2 * 0 = 2 * s.backtracks + p.openCells := hcount
    dsimp only
    omega
  · intro raised m hm
    rcases hm.cases_tail with heq | ⟨m₁, -, hstep⟩
    · exact .inl heq
    · have hpos := hstep.2.counted_pos
      have hle := backtracks_add_counted_le hm
      exact .inr (by omega)

/-- One domino is taken back before two others cover the four cells. -/
theorem counters_account_two_by_two :
    ∃ v laid n, solveFrom ⟨2, 2, #[0, 1, 0, 1], rfl, by decide⟩
        ⟨2, 2, #[none, none, none, none], rfl, by decide⟩ [⟨0, 1⟩, ⟨0, 0⟩, ⟨1, 1⟩] 0 0 = .ok v ∧
      v.solved = true ∧ v.backtracks = 1 ∧ 8 ≤ v.nodes ∧ laid = 3 ∧
      Machine.layings ⟨2, 2, #[0, 1, 0, 1], rfl, by decide⟩ (candidates [⟨0, 1⟩, ⟨0, 0⟩, ⟨1, 1⟩]) n
        ⟨.enter 0 0, [], .start ⟨2, 2, #[none, none, none, none], rfl, by decide⟩ 3⟩ = laid := by
  have h : solveFrom ⟨2, 2, #[0, 1, 0, 1], rfl, by decide⟩
      ⟨2, 2, #[none, none, none, none], rfl, by decide⟩ [⟨0, 1⟩, ⟨0, 0⟩, ⟨1, 1⟩] 0 0 =
      .ok ⟨true, ⟨2, 2, #[some 1, some 2, some 1, some 2], rfl, by decide⟩, 3, 10, 1⟩ := by
    cbv
  obtain ⟨laid, ⟨n, hlaid⟩, hsolved, -⟩ := counters_account (by decide) (by decide) (by decide) h
  obtain ⟨hle, -, hcount⟩ := hsolved rfl
  have hcount : 2 * laid = 2 * 1 + 4 := hcount
  exact ⟨_, laid, n, h, rfl, rfl, hle, by omega, hlaid n (Nat.le_refl n)⟩

end Search
end DominoTiling
