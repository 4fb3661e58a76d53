import DominoTiling.Search.Branches
import DominoTiling.Proofs.Returns

/-!
# The branches of a board

A branch is a candidate that fits the top left cell of the empty board (`branches_eq`). A branch
searched with success leaves an exact cover (`exactCover_of_branch`). The tile of an exact cover on
the top left cell is that of a branch, so if every branch is searched to its end without success
there is no exact cover (`no_exactCover_of_branches`).
-/

namespace DominoTiling.Search
variable {b : Board} {ds : List Domino} {cs : List Candidate} {c : Candidate} {s₀ s : Progress}
  {p : Placement}

theorem filterAuxM_eq {ε α : Type} {f : α → Except ε Bool} {g : α → Bool} {l acc : List α}
    (h : ∀ a ∈ l, f a = .ok (g a)) : l.filterAuxM f acc = .ok ((l.filter g).reverse ++ acc) := by
  induction l generalizing acc with
  | nil => rfl
  | cons a l ih =>
    have hl : ∀ a ∈ l, f a = .ok (g a) := fun a ha => h a (List.mem_cons_of_mem _ ha)
    rw [List.filterAuxM, h a (List.mem_cons_self ..)]
    show l.filterAuxM f (cond (g a) (a :: acc) acc) = _
    rw [ih hl, List.filter_cons]
    cases g a <;> simp

/-- The candidate fits the top left cell of this placement. -/
def Opens (b : Board) (p : Placement) (c : Candidate) : Prop :=
  c.domino.fits b p 0 0 c.orientation = .ok true

instance (b : Board) (p : Placement) (c : Candidate) : Decidable (Opens b p c) :=
  inferInstanceAs (Decidable (_ = _))

/-- The branches are the candidates that open, in their order. -/
theorem branches_eq (hp : Placement.forBoard b = .ok p) :
    branches b ds = .ok ((candidates ds).filter (Opens b p)) := by
  have hfits : ∀ c ∈ candidates ds,
      c.domino.fits b p 0 0 c.orientation = .ok (decide (Opens b p c)) := by
    intro c _
    have hpartner : c.orientation.partner 0 0 = .ok (c.orientation.mate (0, 0)) :=
      Orientation.partner_of_lt (by cases c.orientation <;> decide)
    obtain ⟨v, hv⟩ := c.domino.exists_fits (Placement.at?_forBoard hp).1 hpartner
    rw [hv]
    cases v <;> simp [Opens, hv]
  rw [branches, hp]
  show ((candidates ds).filterAuxM _ [] >>= fun cs => Except.ok cs.reverse) = _
  rw [filterAuxM_eq hfits, List.append_nil]
  exact congrArg Except.ok (List.reverse_reverse _)

theorem mem_branches_iff (h : branches b ds = .ok cs) :
    ∃ p, Placement.forBoard b = .ok p ∧
      ∀ c, c ∈ cs ↔ c ∈ candidates ds ∧ c.domino.fits b p 0 0 c.orientation = .ok true := by
  obtain ⟨p, hp, -⟩ := bind_eq_ok_iff.1 h
  obtain rfl := Except.ok.inj ((branches_eq hp).symm.trans h)
  refine ⟨p, hp, fun c => ?_⟩
  rw [List.mem_filter, decide_eq_true_iff, Opens]

/-- A branch starts where its candidate has been laid on the empty board, which admits it. -/
theorem admits_of_branch (h : branches b ds = .ok cs) (hc : c ∈ cs)
    (hs : branchStart b ds c = .ok s₀) :
    ∃ p, Placement.forBoard b = .ok p ∧ c ∈ candidates ds ∧
      (Progress.start p ds.length).admits b c 0 0 = .ok true ∧
      (Progress.start p ds.length).place c 0 0 = .ok s₀ := by
  obtain ⟨p, hp, hmem⟩ := mem_branches_iff h
  obtain ⟨hcand, hfits⟩ := (hmem c).1 hc
  obtain ⟨p', hp', hlay⟩ := bind_eq_ok_iff.1 hs
  obtain rfl : p = p' := Except.ok.inj (hp.symm.trans hp')
  refine ⟨p, hp, hcand, Progress.admits_eq_true_iff.2 ⟨IndexSet.contains_empty ?_, hfits⟩, hlay⟩
  exact index_lt_of_mem hcand

/-- The search of a branch, called off or not, finds nothing but exact covers. -/
theorem exactCover_of_branch {raised : Nat → Bool} (h : branches b ds = .ok cs) (hc : c ∈ cs)
    (hs : branchStart b ds c = .ok s₀)
    (hrun : run b (candidates ds) raised 0 1 s₀ = .ok (true, s)) : ExactCover b ds s.placement := by
  obtain ⟨p, hp, hcand, hadm, hlay⟩ := admits_of_branch h hc hs
  have hshape := (Placement.at?_forBoard hp).1
  have hshape₀ := Progress.hasShape_place (s := .start p ds.length) hshape hlay
  have houtcome := run_eq_ok_iff.1 hrun
  obtain ⟨ts, hts, hlaid⟩ := houtcome.exists_completed rfl hshape₀ trivial
  have hlaid' := hlaid.cons hshape hadm hlay fun _ _ hu => houtcome.at?_keeps hu
  have htiling :=
    (completion_forBoard_iff hp).1 ((Completion.place_iff hshape hcand hadm hlay).1 hts)
  exact ExactCover.of_tiling (houtcome.hasShape hshape₀) htiling hlaid'.on

/-- The branches exhaust the covers of a board: one of them begins every exact cover. -/
theorem no_exactCover_of_branches (hrows : 1 ≤ b.rows) (hcols : 1 ≤ b.cols)
    (h : branches b ds = .ok cs)
    (hfail : ∀ c ∈ cs, ∃ s₀ s, branchStart b ds c = .ok s₀ ∧
      run b (candidates ds) never 0 1 s₀ = .ok (false, s)) :
    ¬ ∃ p, ExactCover b ds p := by
  rintro ⟨q, hq⟩
  obtain ⟨ts, hts, -⟩ := hq.exists_tiling
  obtain ⟨p, hp, hmem⟩ := mem_branches_iff h
  obtain ⟨hshape, hat⟩ := Placement.at?_forBoard hp
  have hempty : p.at? (0, 0) = some none := (hat _).trans (if_pos ⟨hrows, hcols⟩)
  have hts := (completion_forBoard_iff hp).2 hts
  obtain ⟨c, hcand, ts', hts', -⟩ := hts.exists_candidate hempty
  have hadm := hts'.admits hshape hcand
  obtain ⟨s₀, s, hs, hrun⟩ :=
    hfail c ((hmem c).2 ⟨hcand, (Progress.admits_eq_true_iff.1 hadm).2⟩)
  obtain ⟨p', hp', hlay⟩ := bind_eq_ok_iff.1 hs
  obtain rfl : p = p' := Except.ok.inj (hp.symm.trans hp')
  exact (run_eq_ok_iff.1 hrun).no_completed rfl
    (Progress.hasShape_place (s := .start p ds.length) hshape hlay) trivial ts'
    ((Completion.place_iff hshape hcand hadm hlay).2 hts')

end DominoTiling.Search
