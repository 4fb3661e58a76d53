import DominoTiling.Proofs.Calls
import DominoTiling.Proofs.Pairing
import DominoTiling.Proofs.Reordering

/-!
# Dominoes that fit nowhere

A domino with the pips of no two neighbouring cells is refused wherever it is tried, and trying it is
not counted. So a search with such dominoes in its list is replayed without them step for step, and
only the positions of the other dominoes are different (`Outcome.exists_thinned`).

The complete set for more pips than the board has is the one for the board, in the same order, between
dominoes that fit nowhere (`exists_thinned_upTo`).
-/

namespace DominoTiling
variable {b : Board} {ds ds' : List Domino} {f : Nat → Nat}

/-! ### Lists thinned out -/

/-- No two neighbouring cells have the pips of the domino. -/
def Domino.FitsNowhere (d : Domino) (b : Board) : Prop :=
  ∀ u v m n, Placement.adjacent u v = true → b.at? u = some m → b.at? v = some n →
    d.covers m n = false

theorem Domino.fitsNowhere_of_lt {d : Domino} (h : b.maxPips < d.side2) : d.FitsNowhere b := by
  intro u v m n _ hm hn
  have hle := Board.maxPips_le_iff.1 (Nat.le_refl b.maxPips)
  have hm := hle u m hm
  have hn := hle v n hn
  rw [← Bool.not_eq_true, covers_iff]
  omega

/-- The domino of the list that lies on a cell. -/
def Placement.dominoAt? (p : Placement) (ds : List Domino) (c : Nat × Nat) : Option Domino :=
  (p.at? c).bind fun o => o.bind fun i => ds[i]?

/-- Cells that are open in `p` are open in both or show one domino, whose position is `i` in `q'` and
`f i` in `q`. -/
def Placement.Renumbered (p : Placement) (ds' : List Domino) (f : Nat → Nat) (q q' : Placement) : Prop :=
  ∀ w, p.at? w = some none → (q'.at? w = some none ∧ q.at? w = some none) ∨
    ∃ i < ds'.length, q'.at? w = some (some i) ∧ q.at? w = some (some (f i))

/-- The second list is the first without some dominoes, all of which fit nowhere. The others stood at
the positions `f i`, in this order. -/
structure Thinned (b : Board) (ds ds' : List Domino) (f : Nat → Nat) : Prop where
  getElem : ∀ i < ds'.length, ds[f i]? = ds'[i]?
  lt : ∀ i j, i < j → j < ds'.length → f i < f j
  nowhere : ∀ k d, ds[k]? = some d → (∀ i < ds'.length, f i ≠ k) → d.FitsNowhere b

theorem exists_thinned {keep : Domino × Nat → Bool}
    (h : ∀ e ∈ ds.zipIdx, keep e = false → e.1.FitsNowhere b) :
    ∃ f, Thinned b ds ((ds.zipIdx.filter keep).map Prod.fst) f := by
  have hsorted := (Search.pairwise_zipIdx ds).filter keep
  generalize hes : ds.zipIdx.filter keep = es at hsorted
  have hmem : ∀ e, e ∈ es ↔ ds[e.2]? = some e.1 ∧ keep e = true := by
    intro e
    rw [← hes, List.mem_filter, List.mem_zipIdx_iff_getElem?]
  have hf : ∀ i (hi : i < es.length), (es[i]?.map Prod.snd).getD 0 = es[i].2 := by
    intro i hi
    rw [List.getElem?_eq_getElem hi]
    rfl
  refine ⟨fun i => (es[i]?.map Prod.snd).getD 0, ?_, ?_, ?_⟩
  · intro i hi
    rw [List.length_map] at hi
    rw [hf i hi, ((hmem _).1 (List.getElem_mem hi)).1, List.getElem?_map, List.getElem?_eq_getElem hi]
    rfl
  · intro i j hij hj
    rw [List.length_map] at hj
    rw [hf i (Nat.lt_trans hij hj), hf j hj]
    exact List.pairwise_iff_getElem.1 hsorted i j _ hj hij
  · intro k d hd hmissed
    refine h (d, k) (List.mem_zipIdx_iff_getElem?.2 hd) ?_
    by_contra hkeep
    obtain ⟨i, hi, hik⟩ := List.getElem_of_mem ((hmem (d, k)).2 ⟨hd, by simpa using hkeep⟩)
    refine hmissed i (by rwa [List.length_map]) ?_
    rw [hf i hi, hik]

theorem exists_thinned_upTo {m : Nat} (hm : b.maxPips ≤ m) :
    ∃ f, Thinned b (Domino.upTo m) (Domino.upTo b.maxPips) f := by
  have hlarge : ∀ e ∈ (Domino.upTo m).zipIdx, decide (e.1.side2 ≤ b.maxPips) = false →
      e.1.FitsNowhere b := by
    intro e _ hside
    exact Domino.fitsNowhere_of_lt (by simpa using hside)
  have hsmall : ((Domino.upTo m).zipIdx.filter fun e => e.1.side2 ≤ b.maxPips).map Prod.fst =
      Domino.upTo b.maxPips := by
    have hfirst := List.filter_map (p := fun d : Domino => d.side2 ≤ b.maxPips) (f := Prod.fst)
      (l := (Domino.upTo m).zipIdx)
    rw [List.zipIdx_map_fst, Domino.filter_upTo hm] at hfirst
    exact hfirst.symm
  rw [← hsmall]
  exact exists_thinned hlarge

theorem Thinned.embeds (h : Thinned b ds ds' f) : Search.Embeds ds' ds f := by
  refine ⟨h.getElem, ?_⟩
  intro i hi j hj heq
  rcases Nat.lt_trichotomy i j with hlt | rfl | hlt
  · have hlt := h.lt i j hlt hj
    omega
  · rfl
  · have hlt := h.lt j i hlt hi
    omega

namespace Search
variable {p : Placement} {c : Candidate} {cs cs' : List Candidate} {x y : Nat} {s s' s₁ u : Progress}

/-! ### Candidates left out -/

inductive Drops (b : Board) (ds' : List Domino) (f : Nat → Nat) :
    List Candidate → List Candidate → Prop
  | nil : Drops b ds' f [] []
  | kept {c : Candidate} {cs cs' : List Candidate} (hc : c ∈ candidates ds')
      (rest : Drops b ds' f cs cs') : Drops b ds' f (c.rename f :: cs) (c :: cs')
  | dropped {c : Candidate} {cs cs' : List Candidate} (hc : c.domino.FitsNowhere b)
      (rest : Drops b ds' f cs cs') : Drops b ds' f (c :: cs) cs'

theorem drops_of_filter {keep : Candidate → Bool}
    (hcs : ∀ c ∈ cs, keep c = false → c.domino.FitsNowhere b) (hcs' : ∀ c ∈ cs', c ∈ candidates ds')
    (h : cs.filter keep = cs'.map (Candidate.rename f)) : Drops b ds' f cs cs' := by
  induction cs generalizing cs' with
  | nil =>
    obtain rfl := List.map_eq_nil_iff.1 h.symm
    exact .nil
  | cons c cs ih =>
    have hrest : ∀ c ∈ cs, keep c = false → c.domino.FitsNowhere b :=
      fun c hc => hcs c (List.mem_cons_of_mem _ hc)
    cases hkeep : keep c with
    | false =>
      rw [List.filter_cons_of_neg (by simp [hkeep])] at h
      exact .dropped (hcs c (List.mem_cons_self ..) hkeep) (ih hrest hcs' h)
    | true =>
      rw [List.filter_cons_of_pos hkeep] at h
      obtain ⟨c', cs', rfl, rfl, htail⟩ := List.map_eq_cons_iff.1 h.symm
      exact .kept (hcs' c' (List.mem_cons_self ..))
        (ih hrest (fun c hc => hcs' c (List.mem_cons_of_mem _ hc)) htail.symm)

theorem filter_candidates (h : Thinned b ds ds' f) :
    (candidates ds).filter (fun c => decide (∃ i < ds'.length, f i = c.index)) =
      (candidates ds').map (Candidate.rename f) := by
  have hsorted : ((candidates ds').map (Candidate.rename f)).Pairwise fun c c' =>
      c.decision.Before c'.decision := by
    refine List.pairwise_map.2 ((pairwise_candidates ds').imp_of_mem ?_)
    intro c c' _ hc' hbefore
    have hlt := index_lt_of_mem hc'
    rcases hbefore with hindex | ⟨hindex, hdirections⟩
    · exact .inl (h.lt c.index c'.index hindex hlt)
    · exact .inr ⟨congrArg f hindex, hdirections⟩
  -- both lists are in the order of their decisions, so it is enough that they have the same members
  refine List.Perm.eq_of_pairwise ?_ ((pairwise_candidates ds).filter _) hsorted
    ((List.perm_ext_iff_of_nodup ((nodup_candidates ds).filter _) (nodup_of_before hsorted)).2 ?_)
  · intro c c' _ _ hbefore hbefore'
    exact absurd hbefore' hbefore.asymm
  · intro c
    simp only [List.mem_filter, decide_eq_true_eq, List.mem_map]
    constructor
    · rintro ⟨hc, i, hi, hindex⟩
      refine ⟨⟨i, c.domino, c.orientation⟩, mem_candidates_iff.2 ?_, ?_⟩
      · rw [← h.getElem i hi, hindex]
        exact mem_candidates_iff.1 hc
      · rw [Candidate.rename, hindex]
    · rintro ⟨c', hc', rfl⟩
      have hlt := index_lt_of_mem hc'
      exact ⟨h.embeds.mem_candidates hc', c'.index, hlt, rfl⟩

theorem drops_candidates (h : Thinned b ds ds' f) :
    Drops b ds' f (candidates ds) (candidates ds') := by
  refine drops_of_filter ?_ (fun _ hc => hc) (filter_candidates h)
  intro c hc hmissed
  refine h.nowhere c.index c.domino (mem_candidates_iff.1 hc) ?_
  simpa using hmissed

inductive Task.Drops (b : Board) (ds' : List Domino) (f : Nat → Nat) : Task → Task → Prop
  | cover {x y : Nat} : Task.Drops b ds' f (.cover x y) (.cover x y)
  | attempt {x y : Nat} {cs cs' : List Candidate} (hcs : Search.Drops b ds' f cs cs') :
      Task.Drops b ds' f (.attempt x y cs) (.attempt x y cs')

theorem not_admits_of_fitsNowhere (h : c.domino.FitsNowhere b) (hs : s.placement.HasShape b) :
    s.admits b c x y ≠ .ok true := by
  intro hadm
  obtain ⟨-, -, m, n, hm, hn, hcovers⟩ :=
    (Domino.fits_iff hs).1 (Progress.admits_eq_true_iff.1 hadm).2
  rw [h _ _ m n (Placement.adjacent_mate c.orientation (x, y)) hm hn] at hcovers
  cases hcovers

/-! ### States without the dominoes that fit nowhere -/

namespace Progress

/-- A state with all dominoes, and the state of the same search without some, begun on `p`. -/
structure Replayed (p : Placement) (ds' : List Domino) (f : Nat → Nat) (s u : Progress) : Prop where
  renamed : u.Renamed ds' f s
  cells : p.Renumbered ds' f s.placement u.placement

namespace Replayed

theorem alike (h : s.Replayed p ds' f u) (hs : s'.Alike s) {u' : Progress} (hu : u'.Alike u) :
    s'.Replayed p ds' f u' := by
  constructor
  · exact h.renamed.alike hu hs
  · intro w hw
    rw [hs.placement, hu.placement]
    exact h.cells w hw

theorem start (h : Thinned b ds ds' f) :
    (start p ds.length).Replayed p ds' f (.start p ds'.length) :=
  ⟨.start h.embeds, fun _ hw => .inl ⟨hw, hw⟩⟩

/-- What is laid with all dominoes is laid without some. -/
theorem exists_place (h : s.Replayed p ds' f u) (hf : Thinned b ds ds' f) (hs : s.Sized b ds)
    (hu : u.Sized b ds') (hc : c ∈ candidates ds') (hadm : s.admits b (c.rename f) x y = .ok true)
    (hlay : s.place (c.rename f) x y = .ok s₁) :
    u.admits b c x y = .ok true ∧ ∃ u₁, u.place c x y = .ok u₁ ∧ s₁.Sized b ds ∧ u₁.Sized b ds' ∧
      s₁.Replayed p ds' f u₁ := by
  have hadm' := (h.renamed.admits_eq hu.shape hs.shape hc).symm.trans hadm
  obtain ⟨u₁, hlay', hu₁⟩ := hu.exists_place hc hadm'
  obtain ⟨t₁, hlay₁, hs₁, hrenamed, -⟩ :=
    h.renamed.exists_place hf.embeds hu hs hc hadm' hlay'
  obtain rfl := Except.ok.inj (hlay₁.symm.trans hlay)
  refine ⟨hadm', u₁, hlay', hs₁, hu₁, hrenamed, ?_⟩
  intro w hw
  rw [at?_place hu.shape hadm' hlay', at?_place hs.shape hadm hlay]
  have hlt := index_lt_of_mem hc
  by_cases hmate : w = c.orientation.mate (x, y)
  · exact .inr ⟨c.index, hlt, by simp [hmate]⟩
  by_cases hcell : w = (x, y)
  · exact .inr ⟨c.index, hlt, by simp [hcell]⟩
  · simpa [hmate, hcell] using h.cells w hw

end Replayed
end Progress

namespace Outcome
variable {t t' : Task} {r : Bool}

/-- A search is replayed without dominoes that fit nowhere, and does the same work. -/
theorem exists_thinned (h : Outcome b (candidates ds) never t s r s') (hf : Thinned b ds ds' f)
    (ht : t.Drops b ds' f t') (hs : s.Sized b ds) (hu : u.Sized b ds') (hsu : s.Replayed p ds' f u) :
    ∃ u', Outcome b (candidates ds') never t' u r u' ∧ SameWork s s' u u' ∧
      s'.Replayed p ds' f u' := by
  induction h generalizing t' u with
  | calledOff hread => cases hread
  | rowEnd _ hy hx _ ih =>
    cases ht
    obtain ⟨u', hout, hwork, hsu'⟩ := ih .cover (hs.alike (.enter _)) (hu.alike (.enter _))
      (hsu.alike (.enter _) (.enter _))
    exact ⟨u', .rowEnd rfl hy hx hout, (SameWork.enter ..).trans hwork, hsu'⟩
  | complete _ hy hx =>
    cases ht
    exact ⟨u.enter, .complete rfl hy hx, .enter .., hsu.alike (.enter _) (.enter _)⟩
  | covered _ hy hx hset _ ih =>
    cases ht
    obtain ⟨u', hout, hwork, hsu'⟩ := ih .cover (hs.alike (.enter _)) (hu.alike (.enter _))
      (hsu.alike (.enter _) (.enter _))
    rw [hsu.renamed.isSet_eq hu.shape hs.shape hx hy] at hset
    exact ⟨u', .covered rfl hy hx hset hout, (SameWork.enter ..).trans hwork, hsu'⟩
  | empty _ hy hx hset _ ih =>
    cases ht
    obtain ⟨u', hout, hwork, hsu'⟩ := ih (.attempt (drops_candidates hf)) (hs.alike (.enter _))
      (hu.alike (.enter _)) (hsu.alike (.enter _) (.enter _))
    rw [hsu.renamed.isSet_eq hu.shape hs.shape hx hy] at hset
    exact ⟨u', .empty rfl hy hx hset hout, (SameWork.enter ..).trans hwork, hsu'⟩
  | exhausted =>
    cases ht with | attempt hcs =>
    cases hcs
    exact ⟨u, .exhausted, ⟨rfl, rfl⟩, hsu⟩
  | refused hadm _ ih =>
    cases ht with | attempt hcs =>
    cases hcs with
    | dropped _ rest =>
      -- a refusal is not counted, so the search without the candidate stays where it is
      exact ih (.attempt rest) hs hu hsu
    | kept hc rest =>
      obtain ⟨u', hout, hwork, hsu'⟩ := ih (.attempt rest) hs hu hsu
      rw [hsu.renamed.admits_eq hu.shape hs.shape hc] at hadm
      exact ⟨u', .refused hadm hout, hwork, hsu'⟩
  | found hadm hlay _ ih =>
    cases ht with | attempt hcs =>
    cases hcs with
    | dropped hc => exact absurd hadm (not_admits_of_fitsNowhere hc hs.shape)
    | kept hc rest =>
      obtain ⟨hadm', u₁, hlay', hs₁, hu₁, hsu₁⟩ := hsu.exists_place hf hs hu hc hadm hlay
      obtain ⟨u', hout, hwork, hsu'⟩ := ih .cover hs₁ hu₁ hsu₁
      exact ⟨u', .found hadm' hlay' hout, (SameWork.place hlay hlay').trans hwork, hsu'⟩
  | undone hadm hlay onward hback _ ih ihNext =>
    cases ht with | attempt hcs =>
    cases hcs with
    | dropped hc => exact absurd hadm (not_admits_of_fitsNowhere hc hs.shape)
    | kept hc rest =>
      obtain ⟨hadm', u₁, hlay', hs₁, hu₁, hsu₁⟩ := hsu.exists_place hf hs hu hc hadm hlay
      obtain ⟨u₂, hout, hwork₁, -⟩ := ih .cover hs₁ hu₁ hsu₁
      obtain ⟨u₃, hback', hu₃⟩ := hu.exists_takeBack_place hc hadm' hlay' (hout.restores rfl)
      have hs₃ := Progress.takeBack_place hadm hlay (onward.restores rfl) hback
      obtain ⟨u', hnext, hwork, hsu'⟩ := ihNext (.attempt rest) (hs.alike hs₃) (hu.alike hu₃)
        (hsu.alike hs₃ hu₃)
      have hturn := ((SameWork.place hlay hlay').trans hwork₁).trans (.takeBack hback hback')
      exact ⟨u', .undone hadm' hlay' hout hback' hnext, hturn.trans hwork, hsu'⟩

end Outcome

/-! ### Solving without the dominoes that fit nowhere -/

structure Verdict.Replayed (p : Placement) (ds' : List Domino) (f : Nat → Nat) (v v' : Verdict) :
    Prop where
  solved : v.solved = v'.solved
  nodes : v.nodes = v'.nodes
  backtracks : v.backtracks = v'.backtracks
  fresh : p.Renumbered ds' f v.placement v'.placement
  rest : ∀ w, p.at? w ≠ some none →
    v.placement.at? w = p.at? w ∧ v'.placement.at? w = p.at? w

theorem exists_run_thinned {r : Bool} (hf : Thinned b ds ds' f) (hp : p.HasShape b)
    (h : run b (candidates ds) never x y (.start p ds.length) = .ok (r, s)) :
    ∃ u, run b (candidates ds') never x y (.start p ds'.length) = .ok (r, u) ∧
      u.nodes = s.nodes ∧ u.backtracks = s.backtracks ∧ s.Replayed p ds' f u := by
  obtain ⟨u, hout, hwork, hsu⟩ := (run_eq_ok_iff.1 h).exists_thinned hf .cover
    (Progress.sized_start hp) (Progress.sized_start hp) (.start hf)
  exact ⟨u, run_eq_ok_iff.2 hout, hwork.of_start.1, hwork.of_start.2, hsu⟩

theorem exists_solveFrom_thinned {v : Verdict} (hf : Thinned b ds ds' f)
    (hv : solveFrom b p ds x y = .ok v) :
    ∃ v', solveFrom b p ds' x y = .ok v' ∧ v.Replayed p ds' f v' := by
  obtain ⟨hp, r, s, hrun, hsteps, rfl⟩ := solveFrom_eq_ok_iff.1 hv
  obtain ⟨u, hrun', hnodes, hbacktracks, hsu⟩ := exists_run_thinned hf hp hrun
  refine ⟨_, solveFrom_eq_ok_iff.2 ⟨hp, r, u, hrun', by omega, rfl⟩,
    rfl, hnodes.symm, hbacktracks.symm, hsu.cells, ?_⟩
  intro w hw
  exact ⟨(run_eq_ok_iff.1 hrun).at?_of_not_open hw, (run_eq_ok_iff.1 hrun').at?_of_not_open hw⟩

theorem exists_solveFrom_thinned_iff (hf : Thinned b ds ds' f) :
    (∃ v, solveFrom b p ds x y = .ok v) ↔ ∃ v', solveFrom b p ds' x y = .ok v' := by
  constructor
  · rintro ⟨v, hv⟩
    obtain ⟨v', hv', -⟩ := exists_solveFrom_thinned hf hv
    exact ⟨v', hv'⟩
  · intro hreturns
    obtain ⟨hp, hcols, hstart, hsteps⟩ := exists_solveFrom_iff.1 hreturns
    refine exists_solveFrom_iff.2 ⟨hp, hcols, hstart, ?_⟩
    intro r s hrun
    obtain ⟨u, hrun', hnodes, -, -⟩ := exists_run_thinned hf hp hrun
    rw [← hnodes]
    exact hsteps r u hrun'

theorem Verdict.Replayed.at?_eq {v v' : Verdict} {w : Nat × Nat} (h : v.Replayed p ds' f v')
    (hw : ¬ (p.at? w = some none ∧ ∃ i, v'.placement.at? w = some (some i))) :
    v.placement.at? w = v'.placement.at? w := by
  by_cases hopen : p.at? w = some none
  · rcases h.fresh w hopen with ⟨hv', hv⟩ | ⟨i, -, hv', -⟩
    · rw [hv, hv']
    · exact absurd ⟨hopen, i, hv'⟩ hw
  · rw [(h.rest w hopen).1, (h.rest w hopen).2]

/-- On a placement without dominoes, both runs show the same dominoes. -/
theorem Verdict.Replayed.dominoAt?_eq {v v' : Verdict} (h : v.Replayed p ds' f v')
    (hf : Thinned b ds ds' f) (hclear : p.isClear = true) (w : Nat × Nat) :
    v.placement.dominoAt? ds w = v'.placement.dominoAt? ds' w := by
  unfold Placement.dominoAt?
  cases hcell : p.at? w with
  | none =>
    obtain ⟨hv, hv'⟩ := h.rest w (by simp [hcell])
    rw [hv, hv', hcell]
    rfl
  | some o =>
    obtain rfl := Placement.isClear_iff.1 hclear w o hcell
    rcases h.fresh w hcell with ⟨hv', hv⟩ | ⟨i, hi, hv', hv⟩
    · rw [hv, hv']
      rfl
    · rw [hv, hv']
      exact hf.getElem i hi

theorem solve_larger_set {m : Nat} {es : List Domino} {q : Placement} (hm : b.maxPips ≤ m)
    (hlt : m < 2 ^ 32 - 1) (hset : Domino.completeSet m = .ok es)
    (hq : Placement.forBoard b = .ok q) :
    ((∃ v, solve b q es = .ok v) ↔ ∃ w, solveBoard b = .ok w) ∧
      ∀ v w, solve b q es = .ok v → solveBoard b = .ok w → v.solved = w.solved ∧
        ∀ c, v.placement.dominoAt? es c = w.placement.dominoAt? (Domino.upTo b.maxPips) c := by
  obtain rfl := Domino.eq_upTo_of_completeSet hset
  obtain ⟨f, hf⟩ := exists_thinned_upTo hm
  rw [solveBoard_eq (Domino.completeSet_of_larger hm hlt hset) hq]
  refine ⟨exists_solveFrom_thinned_iff hf, ?_⟩
  intro v w hv hw
  obtain ⟨v', hv', hsame⟩ := exists_solveFrom_thinned hf hv
  obtain rfl := Except.ok.inj (hv'.symm.trans hw)
  exact ⟨hsame.solved, hsame.dominoAt?_eq hf (Placement.isClear_forBoard hq)⟩

/-- Dominoes that fit nowhere change nothing but the positions of the others. With and without them a
search returns or not, and it then has the same answer, takes the same steps, and lays the same dominoes
on the same cells. So every complete set with the pips of the board covers it in the same way. -/
theorem solve_thinned (b : Board) :
    (∀ ds ds' f p x y, Thinned b ds ds' f →
      ((∃ v, solveFrom b p ds x y = .ok v) ↔ ∃ v', solveFrom b p ds' x y = .ok v') ∧
      ∀ v v', solveFrom b p ds x y = .ok v → solveFrom b p ds' x y = .ok v' →
        v.solved = v'.solved ∧ v.nodes = v'.nodes ∧ v.backtracks = v'.backtracks ∧
        (∀ c i, p.at? c = some none → v'.placement.at? c = some (some i) →
          v.placement.at? c = some (some (f i))) ∧
        ∀ c, ¬ (p.at? c = some none ∧ ∃ i, v'.placement.at? c = some (some i)) →
          v.placement.at? c = v'.placement.at? c) ∧
    ∀ m es q, b.maxPips ≤ m → m < 2 ^ 32 - 1 → Domino.completeSet m = .ok es →
      Placement.forBoard b = .ok q →
      ((∃ v, solve b q es = .ok v) ↔ ∃ w, solveBoard b = .ok w) ∧
      ∀ v w, solve b q es = .ok v → solveBoard b = .ok w → v.solved = w.solved ∧
        ∀ c, v.placement.dominoAt? es c = w.placement.dominoAt? (Domino.upTo b.maxPips) c := by
  refine ⟨?_, fun m es q => solve_larger_set⟩
  intro ds ds' f p x y hf
  refine ⟨exists_solveFrom_thinned_iff hf, ?_⟩
  intro v v' hv hv'
  obtain ⟨v'', hv'', hsame⟩ := exists_solveFrom_thinned hf hv
  obtain rfl := Except.ok.inj (hv''.symm.trans hv')
  refine ⟨hsame.solved, hsame.nodes, hsame.backtracks, ?_, fun c hc => hsame.at?_eq hc⟩
  intro c i hopen hi
  rcases hsame.fresh c hopen with ⟨hnone, -⟩ | ⟨j, -, hj, hv⟩
  · rw [hnone] at hi
    cases hi
  · rw [hi] at hj
    cases hj
    exact hv

/-- A board of three rows covered from the second one on, in spite of a domino on the first, with two
dominoes too many; and covered as a whole, with pips up to three. -/
theorem solve_thinned_three_rows :
    (∃ v v', solveFrom ⟨3, 2, #[0, 0, 0, 1, 0, 1], rfl, by decide⟩
        ⟨3, 2, #[none, some 7, none, none, none, none], rfl, by decide⟩
        [⟨0, 1⟩, ⟨0, 5⟩, ⟨0, 0⟩, ⟨5, 5⟩, ⟨1, 1⟩] 1 0 = .ok v ∧
      solveFrom ⟨3, 2, #[0, 0, 0, 1, 0, 1], rfl, by decide⟩
        ⟨3, 2, #[none, some 7, none, none, none, none], rfl, by decide⟩
        [⟨0, 1⟩, ⟨0, 0⟩, ⟨1, 1⟩] 1 0 = .ok v' ∧
      v.backtracks = v'.backtracks ∧ v'.placement.at? (1, 1) = some (some 2) ∧
      v.placement.at? (1, 1) = some (some 4) ∧ v.placement.at? (0, 1) = some (some 7)) ∧
    ∃ q v w, Placement.forBoard ⟨3, 2, #[0, 0, 0, 1, 1, 1], rfl, by decide⟩ = .ok q ∧
      solve ⟨3, 2, #[0, 0, 0, 1, 1, 1], rfl, by decide⟩ q (Domino.upTo 3) = .ok v ∧
      solveBoard ⟨3, 2, #[0, 0, 0, 1, 1, 1], rfl, by decide⟩ = .ok w ∧
      v.placement.dominoAt? (Domino.upTo 3) (2, 0) = w.placement.dominoAt? (Domino.upTo 1) (2, 0) := by
  have hthinned : Thinned ⟨3, 2, #[0, 0, 0, 1, 0, 1], rfl, by decide⟩
      [⟨0, 1⟩, ⟨0, 5⟩, ⟨0, 0⟩, ⟨5, 5⟩, ⟨1, 1⟩] [⟨0, 1⟩, ⟨0, 0⟩, ⟨1, 1⟩] (fun i => 2 * i) := by
    refine ⟨by decide, by intros; omega, ?_⟩
    intro k d hd hmissed
    have hlt : k < 5 := (List.getElem?_eq_some_iff.1 hd).1
    have hfirst := hmissed 0 (by decide)
    have hsecond := hmissed 1 (by decide)
    have hthird := hmissed 2 (by decide)
    obtain rfl | rfl : k = 1 ∨ k = 3 := by omega
    all_goals
      cases hd
      exact Domino.fitsNowhere_of_lt (by cbv)
  have h : solveFrom ⟨3, 2, #[0, 0, 0, 1, 0, 1], rfl, by decide⟩
      ⟨3, 2, #[none, some 7, none, none, none, none], rfl, by decide⟩
      [⟨0, 1⟩, ⟨0, 5⟩, ⟨0, 0⟩, ⟨5, 5⟩, ⟨1, 1⟩] 1 0 =
      .ok ⟨true, ⟨3, 2, #[none, some 7, some 2, some 4, some 2, some 4], rfl, by decide⟩, 5, 10, 1⟩ := by
    cbv
  have h' : solveFrom ⟨3, 2, #[0, 0, 0, 1, 0, 1], rfl, by decide⟩
      ⟨3, 2, #[none, some 7, none, none, none, none], rfl, by decide⟩ [⟨0, 1⟩, ⟨0, 0⟩, ⟨1, 1⟩] 1 0 =
      .ok ⟨true, ⟨3, 2, #[none, some 7, some 1, some 2, some 1, some 2], rfl, by decide⟩, 3, 10, 1⟩ := by
    cbv
  have hlarger : solve ⟨3, 2, #[0, 0, 0, 1, 1, 1], rfl, by decide⟩
      ⟨3, 2, #[none, none, none, none, none, none], rfl, by decide⟩ (Domino.upTo 3) =
      .ok ⟨true, ⟨3, 2, #[some 0, some 0, some 1, some 1, some 4, some 4], rfl, by decide⟩, 10, 10,
        0⟩ := by
    cbv
  have hboard : solveBoard ⟨3, 2, #[0, 0, 0, 1, 1, 1], rfl, by decide⟩ =
      .ok ⟨true, ⟨3, 2, #[some 0, some 0, some 1, some 1, some 2, some 2], rfl, by decide⟩, 3, 10,
        0⟩ := by
    cbv
  obtain ⟨-, -, hbacktracks, hnew, hold⟩ := ((solve_thinned _).1 _ _ _ _ _ _ hthinned).2 _ _ h h'
  obtain ⟨-, hsame⟩ := ((solve_thinned _).2 3 _ _ (by cbv) (by decide)
    (Domino.completeSet_of_lt (by decide) (by cbv)) (by rfl)).2 _ _ hlarger hboard
  exact ⟨⟨_, _, h, h', hbacktracks, rfl, hnew (1, 1) 2 rfl rfl, hold (0, 1) (by rintro ⟨⟨⟩, -⟩)⟩,
    _, _, _, rfl, hlarger, hboard, hsame (2, 0)⟩

end Search
end DominoTiling
