import DominoTiling.Proofs.Pool

/-!
# Searches that are underway

At every call that a search enters, the dominoes in use are those that it has written to the placement:
each to two cells that were empty, with its pips, and to no other ones. The other cells are as they were
when the search began, and every cell between its start and the call is covered (`Underway`). None of
this depends on what the flag has read.

A call hands this on to the call inside it in four ways (`HandedOn`). A call that fails gives back cells
and positions as it found them, but the machine that makes the search only knows the waiting calls. So
each of them keeps the state in which it laid its domino (`FramesKeep`), and taking the domino back leads
to that state again, by `Progress.takeBack_place`. That carries the property over every step, undone and
called off calls among them (`HandedOn.of_moves`), and to every call that is reached
(`underway_at_entry`).
-/

namespace DominoTiling.Search

/-- A property of the cell where a call begins and of the state in which it does, handed on from one
call to the next. It does not depend on the counters. -/
structure HandedOn (b : Board) (all : List Candidate) (P : Nat → Nat → Progress → Prop) : Prop where
  alike : ∀ {x y s s'}, P x y s → s'.Alike s → P x y s'
  rowEnd : ∀ {x y s}, P x y s → b.cols ≤ y → P (x + 1) 0 s
  covered : ∀ {x y s}, P x y s → x < b.rows → y < b.cols → s.placement.isSet x y = .ok true →
    P x (y + 1) s
  laid : ∀ {x y s s₁ c}, P x y s → c ∈ all → s.admits b c x y = .ok true →
    s.place c x y = .ok s₁ → P x (y + 1) s₁

/-- The waiting calls have the property in states that lead to `s`: each has laid its domino in its own
state, and from there on all that has been laid has been taken back. -/
def FramesKeep (b : Board) (all : List Candidate) (P : Nat → Nat → Progress → Prop) :
    List Frame → Progress → Prop
  | [], _ => True
  | .pass :: fs, s => FramesKeep b all P fs s
  | .trial x y c cs :: fs, s => (∀ c' ∈ cs, c' ∈ all) ∧ ∃ s₀ s₁, P x y s₀ ∧
      s₀.admits b c x y = .ok true ∧ s₀.place c x y = .ok s₁ ∧ s.Alike s₁ ∧ FramesKeep b all P fs s₀

/-- The property holds where a call is about to be entered or candidates are about to be tried. Nothing
is said of a search that has succeeded: it enters no more calls. -/
def Machine.Keeps (b : Board) (all : List Candidate) (P : Nat → Nat → Progress → Prop) :
    Machine → Prop
  | ⟨.enter x y, fs, s⟩ => P x y s ∧ FramesKeep b all P fs s
  | ⟨.attempt x y cs, fs, s⟩ => P x y s ∧ (∀ c ∈ cs, c ∈ all) ∧ FramesKeep b all P fs s
  | ⟨.leave false, fs, s⟩ => FramesKeep b all P fs s
  | ⟨.leave true, _, _⟩ => True

/-- The machine after one step for each reading of the flag. -/
def Machine.after (b : Board) (all : List Candidate) (reads : List Bool) (m : Machine) :
    Except Fault Machine :=
  reads.foldlM (fun m read => m.step b all read) m

section
variable {b : Board} {all : List Candidate} {P : Nat → Nat → Progress → Prop} {m m' : Machine}
  {fs : List Frame} {s s' : Progress}

theorem FramesKeep.alike (h : FramesKeep b all P fs s) (hs : s'.Alike s) : FramesKeep b all P fs s' := by
  induction fs with
  | nil => trivial
  | cons f fs ih =>
    cases f with
    | pass => exact ih h
    | trial x y c cs =>
      obtain ⟨hcs, s₀, s₁, hP, hadm, hlay, hs₁, hframes⟩ := h
      exact ⟨hcs, s₀, s₁, hP, hadm, hlay, hs.trans hs₁, hframes⟩

theorem HandedOn.of_moves {read : Bool} (hP : HandedOn b all P) (h : Moves b all read m m')
    (hm : m.Keeps b all P) : m'.Keeps b all P := by
  cases h with
  | calledOff => exact hm.2.alike (.enter _)
  | rowEnd hy => exact ⟨hP.alike (hP.rowEnd hm.1 hy) (.enter _), hm.2.alike (.enter _)⟩
  | complete => trivial
  | covered hy hx hset =>
    exact ⟨hP.alike (hP.covered hm.1 hx hy hset) (.enter _), hm.2.alike (.enter _)⟩
  | empty => exact ⟨hP.alike hm.1 (.enter _), fun _ hc => hc, hm.2.alike (.enter _)⟩
  | exhausted => exact hm.2.2
  | refused => exact ⟨hm.1, fun c hc => hm.2.1 c (List.mem_cons_of_mem _ hc), hm.2.2⟩
  | @laid _ x y c cs fs s s₁ hadm hlay =>
    obtain ⟨hcall, hcs, hframes⟩ := hm
    exact ⟨hP.laid hcall (hcs c (List.mem_cons_self ..)) hadm hlay,
      fun c' hc' => hcs c' (List.mem_cons_of_mem _ hc'), s, s₁, hcall, hadm, hlay, .refl _, hframes⟩
  | stays => exact hm
  | @passed _ found => cases found with
    | true => trivial
    | false => exact hm
  | found => trivial
  | undone hback =>
    -- whatever became of the call inside, the state before the laying is back
    obtain ⟨hcs, s₀, s₁, hcall, hadm, hlay, hs, hframes⟩ := hm
    have hback := Progress.takeBack_place hadm hlay hs hback
    exact ⟨hP.alike hcall hback, hcs, hframes.alike hback⟩

theorem HandedOn.of_after {reads : List Bool} (hP : HandedOn b all P) (hm : m.Keeps b all P)
    (h : m.after b all reads = .ok m') : m'.Keeps b all P := by
  induction reads generalizing m with
  | nil =>
    cases h
    exact hm
  | cons read reads ih =>
    obtain ⟨m₁, hstep, h⟩ := bind_eq_ok_iff.1 h
    exact ih (hP.of_moves (Machine.moves_of_step hstep) hm) h

theorem Machine.exists_after {raised : Nat → Bool}
    (h : Relation.ReflTransGen (Advances b all raised) m m') :
    ∃ reads, m.after b all reads = .ok m' := by
  induction h using Relation.ReflTransGen.head_induction_on with
  | refl => exact ⟨[], rfl⟩
  | head hstep _ ih =>
    obtain ⟨reads, hreads⟩ := ih
    exact ⟨_ :: reads, bind_eq_ok_iff.2 ⟨_, hstep.2.step, hreads⟩⟩

end

/-! ### Dominoes that have been laid -/

/-- The tiles have been laid on open cells of `p`, and their dominoes are those in use. -/
structure Progress.HasLaid (b : Board) (ds : List Domino) (p : Placement) (ts : List Tile)
    (s : Progress) : Prop where
  shape : s.placement.HasShape b
  lies : ∀ t ∈ ts, t.Lies b ds
  index_nodup : (ts.map Tile.index).Nodup
  free : ∀ c ∈ ts.flatMap Tile.cells, p.at? c = some none
  laid : Laid ts p s.placement
  mem_iff : ∀ i, s.inUse.contains i = .ok true ↔ i ∈ ts.map Tile.index

namespace Progress.HasLaid
variable {b : Board} {ds : List Domino} {p : Placement} {ts : List Tile} {s s' s₁ : Progress}
  {c : Candidate} {x y : Nat}

theorem alike (h : s.HasLaid b ds p ts) (hs : s'.Alike s) : s'.HasLaid b ds p ts :=
  ⟨hs.placement ▸ h.shape, h.lies, h.index_nodup, h.free, hs.placement ▸ h.laid, hs.inUse ▸ h.mem_iff⟩

/-- A cell that is open now was open before, and no tile lies on it. -/
theorem notMem_of_open (h : s.HasLaid b ds p ts) {u : Nat × Nat} (hu : s.placement.at? u = some none) :
    u ∉ ts.flatMap Tile.cells := by
  intro hmem
  obtain ⟨i, hi⟩ := h.laid.exists_of_mem hmem
  rw [hu] at hi
  cases hi

theorem place (h : s.HasLaid b ds p ts) (hc : c ∈ candidates ds) (hadm : s.admits b c x y = .ok true)
    (hlay : s.place c x y = .ok s₁) : s₁.HasLaid b ds p (c.tile x y :: ts) := by
  have hat := Progress.at?_place h.shape hadm hlay
  obtain ⟨hlies, hfirst, hsecond⟩ := Completion.lies_tile h.shape hc hadm
  have hfresh : c.index ∉ ts.map Tile.index := by
    rw [← h.mem_iff, (Progress.admits_eq_true_iff.1 hadm).1]
    exact fun hused => by cases hused
  have hne : ∀ t ∈ ts, ∀ u ∈ t.cells, u ≠ (x, y) ∧ u ≠ c.orientation.mate (x, y) := by
    intro t ht u hu
    have hmem : u ∈ ts.flatMap Tile.cells := List.mem_flatMap.2 ⟨t, ht, hu⟩
    constructor
    · rintro rfl
      exact h.notMem_of_open hfirst.1 hmem
    · rintro rfl
      exact h.notMem_of_open hsecond.1 hmem
  have hkept : ∀ t ∈ ts, ∀ u ∈ t.cells, s₁.placement.at? u = some (some t.index) := by
    intro t ht u hu
    obtain ⟨hcell, hmate⟩ := hne t ht u hu
    rw [hat, if_neg hmate, if_neg hcell]
    exact h.laid.at?_of_mem_cells t ht u hu
  refine ⟨Progress.hasShape_place h.shape hlay, List.forall_mem_cons.2 ⟨hlies, h.lies⟩,
    List.nodup_cons.2 ⟨hfresh, h.index_nodup⟩, ?_, ⟨List.forall_mem_cons.2 ⟨?_, ?_⟩, ?_⟩, ?_⟩
  · intro u hu
    rw [List.flatMap_cons, List.mem_append, Tile.mem_cells] at hu
    rcases hu with (rfl | rfl) | hu
    · exact (h.laid.off _ (h.notMem_of_open hfirst.1)).symm.trans hfirst.1
    · exact (h.laid.off _ (h.notMem_of_open hsecond.1)).symm.trans hsecond.1
    · exact h.free u hu
  · simp [hat, Candidate.tile]
  · intro t ht
    exact ⟨hkept t ht _ (by simp), hkept t ht _ (by simp)⟩
  · intro u hu
    rw [List.flatMap_cons, List.mem_append, Tile.mem_cells, not_or, not_or] at hu
    obtain ⟨⟨hfst, hsnd⟩, hrest⟩ := hu
    have hcell : u ≠ (x, y) := hfst
    have hmate : u ≠ c.orientation.mate (x, y) := hsnd
    rw [hat, if_neg hmate, if_neg hcell, h.laid.off u hrest]
  · intro i
    rw [Progress.contains_place hlay, List.map_cons, List.mem_cons, ← h.mem_iff]
    by_cases hi : i = c.index
    · simp [hi, Candidate.tile]
    · simp [hi, Candidate.tile]

end Progress.HasLaid

theorem Progress.hasLaid_start {b : Board} {ds : List Domino} {p : Placement} (hp : p.HasShape b) :
    (Progress.start p ds.length).HasLaid b ds p [] := by
  refine ⟨hp, by simp, by simp, by simp, ⟨by simp, fun _ _ => rfl⟩, fun i => ?_⟩
  exact ⟨fun h => absurd h IndexSet.contains_empty_ne, fun h => absurd h List.not_mem_nil⟩

/-! ### What holds at every call -/

/-- The cell holds `i` and did not when the search began on `p`. -/
def Written (p : Placement) (s : Progress) (i : Nat) (c : Nat × Nat) : Prop :=
  s.placement.at? c = some (some i) ∧ p.at? c ≠ some (some i)

/-- Every cell of the board from `(x₀, y₀)` on that comes before `(x, y)` is covered. -/
def CoveredUpTo (b : Board) (x₀ y₀ x y : Nat) (p : Placement) : Prop :=
  ∀ c : Nat × Nat, c.1 < b.rows → c.2 < b.cols → FromOn x₀ y₀ c → ¬ FromOn x y c →
    ∃ i, p.at? c = some (some i)

/-- A search that began on `p` at `(x₀, y₀)` and enters a call at `(x, y)`. -/
structure Underway (b : Board) (ds : List Domino) (p : Placement) (x₀ y₀ x y : Nat) (s : Progress) :
    Prop where
  /-- Each domino in use has been written to two cells that were empty, and lies there. -/
  written : ∀ i, s.inUse.contains i = .ok true → ∃ u v, (Tile.mk i u v).Lies b ds ∧
    p.at? u = some none ∧ p.at? v = some none ∧ ∀ c, Written p s i c ↔ c = u ∨ c = v
  inUse : ∀ i c, Written p s i c → s.inUse.contains i = .ok true
  others : ∀ c, (∀ i, s.inUse.contains i = .ok true → ¬ Written p s i c) →
    s.placement.at? c = p.at? c
  covered : CoveredUpTo b x₀ y₀ x y s.placement

section
variable {b : Board} {ds : List Domino} {p : Placement} {ts : List Tile} {s : Progress}
  {x₀ y₀ x y : Nat}

namespace Progress.HasLaid

/-- The cells that have been written are those of the tiles, each with the domino of its tile. -/
theorem written_iff (h : s.HasLaid b ds p ts) {i : Nat} {c : Nat × Nat} :
    Written p s i c ↔ ∃ t ∈ ts, t.index = i ∧ c ∈ t.cells := by
  constructor
  · rintro ⟨hnow, hbefore⟩
    have hmem : c ∈ ts.flatMap Tile.cells := by
      refine Decidable.byContradiction fun hc => hbefore ?_
      rw [← h.laid.off c hc, hnow]
    obtain ⟨t, ht, hct⟩ := List.mem_flatMap.1 hmem
    rw [h.laid.at?_of_mem_cells t ht c hct] at hnow
    exact ⟨t, ht, Option.some.inj (Option.some.inj hnow), hct⟩
  · rintro ⟨t, ht, rfl, hct⟩
    refine ⟨h.laid.at?_of_mem_cells t ht c hct, ?_⟩
    rw [h.free c (List.mem_flatMap.2 ⟨t, ht, hct⟩)]
    exact fun hnone => by cases hnone

theorem underway (h : s.HasLaid b ds p ts) (hcov : CoveredUpTo b x₀ y₀ x y s.placement) :
    Underway b ds p x₀ y₀ x y s := by
  refine ⟨fun i hi => ?_, fun i c hc => ?_, fun c hc => h.laid.off c fun hmem => ?_, hcov⟩
  · obtain ⟨t, ht, rfl⟩ := List.mem_map.1 ((h.mem_iff i).1 hi)
    have hcells : ∀ u ∈ t.cells, p.at? u = some none := fun u hu =>
      h.free u (List.mem_flatMap.2 ⟨t, ht, hu⟩)
    refine ⟨t.first, t.second, h.lies t ht, hcells _ (by simp), hcells _ (by simp), fun c => ?_⟩
    rw [h.written_iff, ← Tile.mem_cells]
    constructor
    · rintro ⟨t', ht', hindex, hct⟩
      obtain rfl : t' = t := List.inj_on_of_nodup_map h.index_nodup ht' ht hindex
      exact hct
    · exact fun hct => ⟨t, ht, rfl, hct⟩
  · obtain ⟨t, ht, rfl, -⟩ := h.written_iff.1 hc
    exact (h.mem_iff _).2 (List.mem_map_of_mem ht)
  · obtain ⟨t, ht, hct⟩ := List.mem_flatMap.1 hmem
    exact hc t.index ((h.mem_iff _).2 (List.mem_map_of_mem ht)) (h.written_iff.2 ⟨t, ht, rfl, hct⟩)

end Progress.HasLaid

/-- What calls hand on: dominoes have been laid on open cells of `p`, and none is left out. -/
def LaidUpTo (b : Board) (ds : List Domino) (p : Placement) (x₀ y₀ x y : Nat) (s : Progress) : Prop :=
  (∃ ts, s.HasLaid b ds p ts) ∧ CoveredUpTo b x₀ y₀ x y s.placement

theorem laidUpTo_start (hp : p.HasShape b) : LaidUpTo b ds p x y x y (.start p ds.length) :=
  ⟨⟨[], Progress.hasLaid_start hp⟩, fun _ _ _ hfrom hnot => absurd hfrom hnot⟩

theorem handedOn_laidUpTo : HandedOn b (candidates ds) (LaidUpTo b ds p x₀ y₀) := by
  constructor
  case alike =>
    rintro x y s s' ⟨⟨ts, hts⟩, hcov⟩ hs
    exact ⟨⟨ts, hts.alike hs⟩, hs.placement ▸ hcov⟩
  case rowEnd =>
    rintro x y s ⟨hts, hcov⟩ hy
    exact ⟨hts, fun c hx hc hfrom hnot => hcov c hx hc hfrom fun hon =>
      hnot ((FromOn.iff_next_row hy hc).1 hon)⟩
  case covered =>
    rintro x y s ⟨⟨ts, hts⟩, hcov⟩ hx hy hset
    refine ⟨⟨ts, hts⟩, fun c hcx hcy hfrom hnot => ?_⟩
    by_cases hc : c = (x, y)
    · rw [hc]
      exact (Placement.isSet_true_iff (hts.shape.1 ▸ hx) (hts.shape.2 ▸ hy)).1 hset
    · exact hcov c hcx hcy hfrom fun hon => (FromOn.iff_eq_or_next.1 hon).elim hc hnot
  case laid =>
    rintro x y s s₁ c ⟨⟨ts, hts⟩, hcov⟩ hc hadm hlay
    refine ⟨⟨_, hts.place hc hadm hlay⟩, fun u hux huy hfrom hnot => ?_⟩
    rw [Progress.at?_place hts.shape hadm hlay]
    split_ifs with hmate hcell
    · exact ⟨_, rfl⟩
    · exact ⟨_, rfl⟩
    · exact hcov u hux huy hfrom fun hon => (FromOn.iff_eq_or_next.1 hon).elim hcell hnot

theorem LaidUpTo.underway {x₁ y₁ : Nat} {reads : List Bool} {m : Machine}
    (h : LaidUpTo b ds p x₀ y₀ x₁ y₁ s)
    (hm : Machine.after b (candidates ds) reads ⟨.enter x₁ y₁, [], s⟩ = .ok m)
    (hentry : m.control = .enter x y) : Underway b ds p x₀ y₀ x y m.progress := by
  have hkeeps : Machine.Keeps b (candidates ds) (LaidUpTo b ds p x₀ y₀) ⟨.enter x₁ y₁, [], s⟩ :=
    ⟨h, trivial⟩
  have hkeeps := handedOn_laidUpTo.of_after hkeeps hm
  obtain ⟨control, fs, s'⟩ := m
  obtain rfl : control = .enter x y := hentry
  obtain ⟨⟨⟨ts, hts⟩, hcov⟩, -⟩ := hkeeps
  exact hts.underway hcov

end

/-! ### Branches and workers -/

section
variable {b : Board} {ds : List Domino} {cs : List Candidate} {c : Candidate} {p : Placement}
  {s₀ : Progress}

theorem laidUpTo_branchStart (hcs : branches b ds = .ok cs) (hc : c ∈ cs)
    (hp : Placement.forBoard b = .ok p) (hs : branchStart b ds c = .ok s₀) :
    LaidUpTo b ds p 0 0 0 1 s₀ := by
  obtain ⟨p', hp', hcand, hadm, hlay⟩ := admits_of_branch hcs hc hs
  obtain rfl : p = p' := Except.ok.inj (hp.symm.trans hp')
  exact handedOn_laidUpTo.laid (laidUpTo_start (Placement.at?_forBoard hp).1) hcand hadm hlay

/-- A branch that is being searched has come there from its start. -/
def BranchState.FromStart (b : Board) (ds : List Domino) (c : Candidate) : BranchState → Prop
  | .searching m => ∃ s₀ reads, branchStart b ds c = .ok s₀ ∧
      Machine.after b (candidates ds) reads ⟨.enter 0 1, [], s₀⟩ = .ok m
  | _ => True

theorem BranchState.FromStart.step {st : BranchState} {read : Bool} (h : st.FromStart b ds c) :
    (st.step b ds c read).FromStart b ds c := by
  cases st with
  | waiting =>
    simp only [BranchState.step]
    split
    · trivial
    · split
      · rename_i s₀ hs
        exact ⟨s₀, [], hs, rfl⟩
      · trivial
  | searching m =>
    obtain ⟨s₀, reads, hs, hm⟩ := h
    simp only [BranchState.step]
    split
    · trivial
    · trivial
    · split
      · rename_i m' hstep
        refine ⟨s₀, reads ++ [read], hs, ?_⟩
        rw [Machine.after, List.foldlM_append]
        exact bind_eq_ok_iff.2 ⟨m, hm, bind_eq_ok_iff.2 ⟨m', hstep, rfl⟩⟩
      · trivial
  | covered | signalled | answered | failed => trivial

theorem Pool.fromStart_step {workers k : Nat} {read : Bool} {q q' : Pool}
    (hq : ∀ e ∈ q.branches, e.2.FromStart b ds e.1)
    (h : q.step b ds workers k read = some q') : ∀ e ∈ q'.branches, e.2.FromStart b ds e.1 := by
  obtain ⟨c, st, hk, -, rfl⟩ := Pool.step_eq_some h
  intro e he
  rcases List.mem_or_eq_of_mem_set he with he | rfl
  · exact hq e he
  · exact (hq _ (List.mem_of_getElem? hk)).step

/-- A branch that workers have taken up has come to where it is from its start. -/
theorem Pool.fromStart_run {workers : Nat} {schedule : List (Nat × Bool)} {q : Pool}
    (h : (Pool.start cs).run b ds workers schedule = some q) :
    ∀ e ∈ q.branches, e.2.FromStart b ds e.1 := by
  refine Pool.run_keeps (fun hq hstep => Pool.fromStart_step hq hstep) (fun e he => ?_) h
  obtain ⟨c, -, rfl⟩ := List.mem_map.1 he
  trivial

end

/-- At every entry of a call the dominoes in use lie where they have been laid, every other cell is as
it was when the search began, and every cell on the way to the call is covered: in a search from any
start on any placement, in the search of a branch, and in that of a branch that workers have taken up,
whatever the flag reads. A run comes to its result by steps of the machine with the readings of the run,
and every machine on the way is one of those reached with some readings. -/
theorem underway_at_entry {b : Board} {ds : List Domino} :
    (∀ p x y reads m u v, p.HasShape b →
      Machine.after b (candidates ds) reads ⟨.enter x y, [], .start p ds.length⟩ = .ok m →
      m.control = .enter u v → Underway b ds p x y u v m.progress) ∧
    (∀ cs p, branches b ds = .ok cs → Placement.forBoard b = .ok p →
      (∀ c ∈ cs, ∀ s₀ reads m u v, branchStart b ds c = .ok s₀ →
        Machine.after b (candidates ds) reads ⟨.enter 0 1, [], s₀⟩ = .ok m →
        m.control = .enter u v → Underway b ds p 0 0 u v m.progress) ∧
      ∀ workers schedule q c m u v, (Pool.start cs).run b ds workers schedule = some q →
        (c, .searching m) ∈ q.branches → m.control = .enter u v →
        Underway b ds p 0 0 u v m.progress) ∧
    ∀ raised,
      (∀ x y s r s', run b (candidates ds) raised x y s = .ok (r, s') →
        Relation.ReflTransGen (Machine.Advances b (candidates ds) raised) ⟨.enter x y, [], s⟩
          ⟨.leave r, [], s'⟩) ∧
      ∀ m m', Relation.ReflTransGen (Machine.Advances b (candidates ds) raised) m m' →
        ∃ reads, m.after b (candidates ds) reads = .ok m' := by
  refine ⟨fun p x y reads m u v hp hm => (laidUpTo_start hp).underway hm, fun cs p hcs hp => ?_,
    fun raised => ⟨fun x y s r s' hrun => (run_eq_ok_iff.1 hrun).advances [],
      fun m m' => Machine.exists_after⟩⟩
  have hbranch : ∀ c ∈ cs, ∀ s₀ reads m u v, branchStart b ds c = .ok s₀ →
      Machine.after b (candidates ds) reads ⟨.enter 0 1, [], s₀⟩ = .ok m →
      m.control = .enter u v → Underway b ds p 0 0 u v m.progress := by
    intro c hc s₀ reads m u v hs hm hentry
    exact (laidUpTo_branchStart hcs hc hp hs).underway hm hentry
  refine ⟨hbranch, fun workers schedule q c m u v hrun hmem hentry => ?_⟩
  obtain ⟨s₀, reads, hs, hm⟩ := Pool.fromStart_run hrun _ hmem
  have hc : c ∈ cs := by
    rw [← ((Pool.inv_start cs).run hrun).candidates]
    exact List.mem_map_of_mem hmem
  exact hbranch c hc s₀ reads m u v hs hm hentry

theorem underway_at_entry_called_off :
    Underway ⟨2, 2, #[0, 1, 0, 1], rfl, by decide⟩ [⟨0, 1⟩, ⟨0, 0⟩]
        ⟨2, 2, #[none, none, none, none], rfl, by decide⟩ 0 0 0 1
        ⟨⟨2, 2, #[some 1, none, some 1, none], rfl, by decide⟩, ⟨#[2]⟩, 2, 1⟩ ∧
      Underway ⟨1, 2, #[0, 1], rfl, by decide⟩ [⟨0, 1⟩] ⟨1, 2, #[none, none], rfl, by decide⟩ 0 0 1 0
        ⟨⟨1, 2, #[some 0, some 0], rfl, by decide⟩, ⟨#[1]⟩, 2, 0⟩ := by
  constructor
  -- the flag is up where the first domino has been laid, and down again for the second one
  · exact underway_at_entry.1 _ 0 0 [false, false, true, false, false, false, false]
      ⟨.enter 0 1, [.trial 0 0 ⟨1, ⟨0, 0⟩, .vertical⟩ []], _⟩ 0 1 ⟨rfl, rfl⟩ rfl rfl
  -- a worker has searched the only branch up to the second row
  · exact (underway_at_entry.2.1 [⟨0, ⟨0, 1⟩, .horizontal⟩] _ rfl rfl).2 1
      [(0, false), (0, false), (0, false)]
      ⟨false, [(⟨0, ⟨0, 1⟩, .horizontal⟩, .searching ⟨.enter 1 0, [.pass, .pass], _⟩)]⟩
      ⟨0, ⟨0, 1⟩, .horizontal⟩ ⟨.enter 1 0, [.pass, .pass], _⟩ 1 0 rfl (List.mem_cons_self ..) rfl

end DominoTiling.Search
