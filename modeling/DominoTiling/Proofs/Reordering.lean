import DominoTiling.Proofs.Calls
import DominoTiling.Proofs.Decisions
import Mathlib.Data.List.Perm.Subperm

/-!
# The order of a list of dominoes

Which way around a domino stands in the list is never looked at, so a search does the same step for
step with `Turned` dominoes (`solveFrom_turned`).

The order of the list decides what is tried first, and so which cover is found. A search that fails
tries everything, in any order: what it takes back leaves nothing behind but the counters, which do
not steer it, so two candidates tried one after the other can change places (`Outcome.attempt_perm`).
With that, a failing search of one list is replayed with the other, each state with its positions
renamed (`Progress.Renamed`), and comes to the same counts.
-/

namespace DominoTiling

/-- One list is the other with some of its dominoes turned around. -/
def Turned (ds ds' : List Domino) : Prop := List.Forall₂ (fun d d' => d' = d ∨ d' = d.swap) ds ds'

/-- One list is the other in some order, with some of its dominoes turned around. -/
def Reordered (ds ds' : List Domino) : Prop := ∃ es, ds.Perm es ∧ Turned es ds'

theorem Turned.symm {ds ds' : List Domino} (h : Turned ds ds') : Turned ds' ds := by
  refine List.Forall₂.flip (h.imp ?_)
  rintro d d' (rfl | rfl)
  · exact .inl rfl
  · exact .inr rfl

theorem Reordered.symm {ds ds' : List Domino} (h : Reordered ds ds') : Reordered ds' ds := by
  obtain ⟨es, hperm, hturned⟩ := h
  obtain ⟨fs, hfs, hperm'⟩ := List.perm_comp_forall₂ hperm hturned
  exact ⟨fs, hperm'.symm, Turned.symm hfs⟩

namespace Search
variable {b : Board} {ds ds' es : List Domino} {cs cs' : List Candidate} {c c' : Candidate}
  {x y : Nat} {s s' u : Progress}

/-! ### Turned dominoes -/

structure Candidate.Turned (c c' : Candidate) : Prop where
  index : c'.index = c.index
  orientation : c'.orientation = c.orientation
  covers : ∀ p q, c'.domino.covers p q = c.domino.covers p q

theorem turned_candidates (h : Turned ds ds') :
    List.Forall₂ Candidate.Turned (candidates ds) (candidates ds') := by
  unfold candidates
  generalize 0 = k
  induction h generalizing k with
  | nil => exact .nil
  | @cons d d' ds ds' hd _ ih =>
    have hcovers : ∀ p q, d'.covers p q = d.covers p q := by
      intro p q
      rcases hd with rfl | rfl
      · rfl
      · exact d.covers_swap p q
    simp only [List.zipIdx_cons, List.flatMap_cons]
    exact .cons ⟨rfl, rfl, hcovers⟩ (.cons ⟨rfl, rfl, hcovers⟩ (ih (k + 1)))

namespace Candidate.Turned

theorem admits (h : c.Turned c') (s : Progress) : s.admits b c' x y = s.admits b c x y := by
  simp only [Progress.admits, Domino.fits, h.index, h.orientation, h.covers]

theorem place (h : c.Turned c') (s : Progress) : s.place c' x y = s.place c x y := by
  simp only [Progress.place, h.index, h.orientation]

theorem takeBack (h : c.Turned c') (s : Progress) : s.takeBack c' x y = s.takeBack c x y := by
  simp only [Progress.takeBack, h.index, h.orientation]

end Candidate.Turned

theorem tryCandidates_turned {onward : Progress → Except Fault (Bool × Progress)}
    (h : List.Forall₂ Candidate.Turned cs cs') (s : Progress) :
    tryCandidates b x y onward cs' s = tryCandidates b x y onward cs s := by
  induction h generalizing s with
  | nil => rfl
  | cons hc _ ih => simp only [tryCandidates, hc.admits, hc.place, hc.takeBack, ih]

theorem run_turned {raised : Nat → Bool} (h : List.Forall₂ Candidate.Turned cs cs') :
    run b cs' raised x y s = run b cs raised x y s := by
  induction x, y, s using run.induct b raised with
  | case1 x y s hread => rw [run_calledOff hread, run_calledOff hread]
  | case2 x y s hread hy x' hx ih =>
    obtain ⟨hlt, rfl⟩ := word_eq_ok_iff.1 hx
    have hread := Bool.eq_false_iff.2 hread
    rw [run_rowEnd hread hy hlt, run_rowEnd hread hy hlt, ih]
  | case3 x y s hread hy f hx =>
    have hread := Bool.eq_false_iff.2 hread
    obtain ⟨hlast, -⟩ := word_eq_error_iff.1 hx
    rw [run_lastRow hread hy hlast, run_lastRow hread hy hlast]
  | case4 x y s hread hy hx =>
    have hread := Bool.eq_false_iff.2 hread
    rw [run_complete hread (Nat.lt_of_not_le hy) hx, run_complete hread (Nat.lt_of_not_le hy) hx]
  | case5 x y s hread hy hx ihSet ihEmpty =>
    have hread := Bool.eq_false_iff.2 hread
    have honward : (fun s => run b cs' raised x (y + 1) s) = fun s => run b cs raised x (y + 1) s :=
      funext ihEmpty
    rw [run_onBoard hread (Nat.lt_of_not_le hy) (Nat.lt_of_not_le hx),
      run_onBoard hread (Nat.lt_of_not_le hy) (Nat.lt_of_not_le hx), honward]
    simp only [ihSet, tryCandidates_turned h]

theorem solveFrom_turned {p : Placement} (h : Turned ds ds') :
    solveFrom b p ds' x y = solveFrom b p ds x y := by
  simp only [solveFrom, solveInPlace, h.length_eq, run_turned (turned_candidates h)]

/-! ### The order in which candidates are tried -/

theorem Progress.Alike.eq_of_counts (h : s.Alike u) (hnodes : s.nodes = u.nodes)
    (hbacktracks : s.backtracks = u.backtracks) : s = u := by
  obtain ⟨placement, inUse, nodes, backtracks⟩ := s
  obtain ⟨placement', inUse', nodes', backtracks'⟩ := u
  obtain ⟨rfl, rfl⟩ := h
  obtain rfl : nodes = nodes' := hnodes
  obtain rfl : backtracks = backtracks' := hbacktracks
  rfl

namespace Outcome
variable {all : List Candidate} {raised : Nat → Bool}

theorem attempt_append_iff :
    Outcome b all raised (.attempt x y (cs ++ cs')) s false s' ↔
      ∃ s₁, Outcome b all raised (.attempt x y cs) s false s₁ ∧
        Outcome b all raised (.attempt x y cs') s₁ false s' := by
  constructor
  · intro h
    induction cs generalizing s with
    | nil => exact ⟨s, .exhausted, h⟩
    | cons c cs ih =>
      cases h with
      | refused hadm next =>
        obtain ⟨s₁, hfirst, hrest⟩ := ih next
        exact ⟨s₁, .refused hadm hfirst, hrest⟩
      | undone hadm hlay onward hback next =>
        obtain ⟨s₁, hfirst, hrest⟩ := ih next
        exact ⟨s₁, .undone hadm hlay onward hback hfirst, hrest⟩
  · rintro ⟨s₁, hfirst, hrest⟩
    induction cs generalizing s with
    | nil =>
      cases hfirst
      exact hrest
    | cons c cs ih =>
      cases hfirst with
      | refused hadm next => exact .refused hadm (ih next)
      | undone hadm hlay onward hback next => exact .undone hadm hlay onward hback (ih next)

/-- Candidates that fail one after the other fail in any order, and leave the same state. -/
theorem attempt_perm (h : Outcome b all never (.attempt x y cs) s false s') (hcs : cs.Perm cs') :
    Outcome b all never (.attempt x y cs') s false s' := by
  induction hcs generalizing s with
  | nil => exact h
  | cons c _ ih =>
    cases h with
    | refused hadm next => exact .refused hadm (ih next)
    | undone hadm hlay onward hback next => exact .undone hadm hlay onward hback (ih next)
  | swap c c' cs =>
    obtain ⟨s₁, hfirst, h⟩ := attempt_append_iff.1 (show Outcome b all never
      (.attempt x y ([c'] ++ ([c] ++ cs))) s false s' from h)
    obtain ⟨s₂, hsecond, hrest⟩ := attempt_append_iff.1 h
    -- Each of the two does the same work from the state that the other one begins with.
    obtain ⟨t₁, hsecond', hlike₁, hwork₁⟩ := hsecond.exists_alike (hfirst.restores rfl).symm
    obtain ⟨t₂, hfirst', hlike₂, hwork₂⟩ := hfirst.exists_alike (hsecond'.restores rfl)
    obtain rfl : t₂ = s₂ := by
      have hlike : t₂.Alike s₂ :=
        (hlike₂.trans (hfirst.restores rfl)).trans
          ((hsecond.restores rfl).trans (hfirst.restores rfl)).symm
      have hnodes := hwork₁.nodes
      have hnodes' := hwork₂.nodes
      have hbacktracks := hwork₁.backtracks
      have hbacktracks' := hwork₂.backtracks
      exact hlike.eq_of_counts (by omega) (by omega)
    exact attempt_append_iff.2 ⟨t₁, hsecond', attempt_append_iff.2 ⟨t₂, hfirst', hrest⟩⟩
  | trans _ _ ih ih' => exact ih' (ih h)

end Outcome

/-! ### Positions renamed -/

def Candidate.rename (σ : Nat → Nat) (c : Candidate) : Candidate := { c with index := σ c.index }

@[simp] theorem Candidate.rename_index (σ : Nat → Nat) (c : Candidate) :
    (c.rename σ).index = σ c.index := rfl

@[simp] theorem Candidate.rename_orientation (σ : Nat → Nat) (c : Candidate) :
    (c.rename σ).orientation = c.orientation := rfl

def Task.rename (σ : Nat → Nat) : Task → Task
  | .cover x y => .cover x y
  | .attempt x y cs => .attempt x y (cs.map (Candidate.rename σ))

/-- The domino at each position of one list is at the renamed position of the other. -/
structure Embeds (ds es : List Domino) (σ : Nat → Nat) : Prop where
  getElem : ∀ i < ds.length, es[σ i]? = ds[i]?
  inj : ∀ i < ds.length, ∀ j < ds.length, σ i = σ j → i = j

/-- The other list has no more dominoes. -/
structure Renames (ds es : List Domino) (σ : Nat → Nat) : Prop extends Embeds ds es σ where
  length : es.length = ds.length

theorem exists_embeds (h : ds.Subperm es) : ∃ σ, Embeds ds es σ := by
  refine ⟨fun i => if hi : i < ds.length then (h.idxInj ⟨i, hi⟩).val else i, ?_, ?_⟩
  · intro i hi
    rw [dif_pos hi, List.getElem?_eq_getElem (h.idxInj ⟨i, hi⟩).isLt, List.getElem?_eq_getElem hi]
    exact congrArg some h.getElem_idxInj_eq_getElem
  · intro i hi j hj heq
    rw [dif_pos hi, dif_pos hj] at heq
    exact Fin.mk.inj (h.idxInj_injective (Fin.ext heq))

theorem exists_renames (h : ds.Perm es) : ∃ σ, Renames ds es σ := by
  obtain ⟨σ, hσ⟩ := exists_embeds h.subperm
  exact ⟨σ, hσ, h.length_eq.symm⟩

theorem nodup_of_before (h : cs.Pairwise fun c c' => c.decision.Before c'.decision) : cs.Nodup := by
  refine h.imp ?_
  rintro c c' hbefore rfl
  exact hbefore.asymm hbefore

theorem nodup_candidates (ds : List Domino) : (candidates ds).Nodup :=
  nodup_of_before (pairwise_candidates ds)

namespace Embeds
variable {σ : Nat → Nat}

theorem lt (h : Embeds ds es σ) {i : Nat} (hi : i < ds.length) : σ i < es.length := by
  have hget := h.getElem i hi
  rw [List.getElem?_eq_getElem hi] at hget
  exact (List.getElem?_eq_some_iff.1 hget).1

theorem mem_candidates (h : Embeds ds es σ) (hc : c ∈ candidates ds) :
    c.rename σ ∈ candidates es := by
  have hget := mem_candidates_iff.1 hc
  rw [mem_candidates_iff]
  exact (h.getElem c.index (List.getElem?_eq_some_iff.1 hget).1).trans hget

end Embeds

namespace Renames
variable {σ : Nat → Nat}

theorem perm_candidates (h : Renames ds es σ) :
    ((candidates ds).map (Candidate.rename σ)).Perm (candidates es) := by
  have hinj : ∀ c ∈ candidates ds, ∀ c' ∈ candidates ds, c.rename σ = c'.rename σ → c = c' := by
    intro c hc c' hc' heq
    have hi := index_lt_of_mem hc
    have hi' := index_lt_of_mem hc'
    obtain ⟨i, d, o⟩ := c
    obtain ⟨i', d', o'⟩ := c'
    obtain ⟨hindex, rfl, rfl⟩ := Candidate.mk.inj heq
    obtain rfl := h.inj i hi i' hi' hindex
    rfl
  refine (List.subperm_of_subset ((nodup_candidates ds).map_on hinj) ?_).perm_of_length_le ?_
  · intro c' hc'
    obtain ⟨c, hc, rfl⟩ := List.mem_map.1 hc'
    exact h.toEmbeds.mem_candidates hc
  · simp [length_candidates, h.length]

end Renames

namespace Progress

/-- The same cells are open and the renamed positions are in use. -/
structure Renamed (ds : List Domino) (σ : Nat → Nat) (s u : Progress) : Prop where
  isOpen : ∀ c, u.placement.at? c = some none ↔ s.placement.at? c = some none
  inUse : ∀ i < ds.length, u.inUse.contains (σ i) = s.inUse.contains i

namespace Renamed
variable {σ : Nat → Nat} {s₁ : Progress}

theorem start {p : Placement} (h : Embeds ds es σ) :
    (start p ds.length).Renamed ds σ (.start p es.length) := by
  refine ⟨fun c => Iff.rfl, ?_⟩
  intro i hi
  exact (IndexSet.contains_empty (h.lt hi)).trans (IndexSet.contains_empty hi).symm

theorem alike (h : s.Renamed ds σ u) (hs : s'.Alike s) {u' : Progress} (hu : u'.Alike u) :
    s'.Renamed ds σ u' := by
  constructor
  · rw [hs.placement, hu.placement]
    exact h.isOpen
  · rw [hs.inUse, hu.inUse]
    exact h.inUse

theorem isSet_eq (h : s.Renamed ds σ u) (hs : s.placement.HasShape b) (hu : u.placement.HasShape b)
    (hx : x < b.rows) (hy : y < b.cols) : u.placement.isSet x y = s.placement.isSet x y := by
  have hsx := Nat.lt_of_lt_of_eq hx hs.1.symm
  have hsy := Nat.lt_of_lt_of_eq hy hs.2.symm
  have hux := Nat.lt_of_lt_of_eq hx hu.1.symm
  have huy := Nat.lt_of_lt_of_eq hy hu.2.symm
  obtain ⟨v, hv⟩ := Placement.exists_isSet hsx hsy
  obtain ⟨w, hw⟩ := Placement.exists_isSet hux huy
  have hiff : v = false ↔ w = false := by
    constructor
    · rintro rfl
      have hopen := (h.isOpen (x, y)).2 ((Placement.isSet_false_iff hsx hsy).1 hv)
      exact Except.ok.inj (hw.symm.trans ((Placement.isSet_false_iff hux huy).2 hopen))
    · rintro rfl
      have hopen := (h.isOpen (x, y)).1 ((Placement.isSet_false_iff hux huy).1 hw)
      exact Except.ok.inj (hv.symm.trans ((Placement.isSet_false_iff hsx hsy).2 hopen))
  rw [hv, hw]
  cases v <;> cases w <;> simp_all

theorem admits_eq (h : s.Renamed ds σ u) (hs : s.placement.HasShape b)
    (hu : u.placement.HasShape b) (hc : c ∈ candidates ds) :
    u.admits b (c.rename σ) x y = s.admits b c x y := by
  have hlt := index_lt_of_mem hc
  have hfits : c.domino.fits b u.placement x y c.orientation =
      c.domino.fits b s.placement x y c.orientation := by
    unfold Domino.fits
    cases hm : c.orientation.partner x y with
    | error f => rfl
    | ok m =>
      obtain rfl := Orientation.partner_eq_ok hm
      simp only [bind, Except.bind]
      split
      · rfl
      · rename_i hon
        have hmate : (c.orientation.mate (x, y)).1 < b.rows ∧
            (c.orientation.mate (x, y)).2 < b.cols := by omega
        have hcell := Orientation.lt_of_mate_lt hmate
        rw [h.isSet_eq hs hu hcell.1 hcell.2, h.isSet_eq hs hu hmate.1 hmate.2]
  simp only [admits, Candidate.rename, h.inUse c.index hlt, hfits]

/-- Laying a candidate and the renamed one. -/
theorem exists_place (h : s.Renamed ds σ u) (hσ : Embeds ds es σ) (hs : s.Sized b ds)
    (hu : u.Sized b es) (hc : c ∈ candidates ds) (hadm : s.admits b c x y = .ok true)
    (hlay : s.place c x y = .ok s₁) :
    ∃ u₁, u.place (c.rename σ) x y = .ok u₁ ∧ u₁.Sized b es ∧ s₁.Renamed ds σ u₁ ∧
      SameWork s s₁ u u₁ := by
  have hadm' := (h.admits_eq hs.shape hu.shape hc).trans hadm
  obtain ⟨u₁, hlay', hu₁⟩ := hu.exists_place (hσ.mem_candidates hc) hadm'
  have hlt := index_lt_of_mem hc
  refine ⟨u₁, hlay', hu₁, ⟨?_, ?_⟩, .place hlay hlay'⟩
  · intro w
    rw [at?_place hu.shape hadm' hlay', at?_place hs.shape hadm hlay]
    by_cases hw : w = c.orientation.mate (x, y)
    · simp [hw]
    by_cases hw' : w = (x, y)
    · simp [hw']
    · simpa [hw, hw'] using h.isOpen w
  · intro i hi
    rw [contains_place hlay', contains_place hlay, Candidate.rename_index]
    by_cases heq : i = c.index
    · rw [if_pos heq, if_pos (congrArg σ heq)]
    · rw [if_neg heq, if_neg (fun he => heq (hσ.inj i hi c.index hlt he))]
      exact h.inUse i hi

end Renamed
end Progress

namespace Outcome
variable {σ : Nat → Nat} {t : Task} {r : Bool}

/-- A search that fails is replayed with the positions renamed and does the same work. -/
theorem exists_renamed (h : Outcome b (candidates ds) never t s r s') (hr : r = false)
    (hσ : Renames ds es σ) (ht : t.Offers ds) (hs : s.Sized b ds) (hu : u.Sized b es)
    (hsu : s.Renamed ds σ u) :
    ∃ u', Outcome b (candidates es) never (t.rename σ) u false u' ∧ SameWork s s' u u' := by
  induction h generalizing u with
  | calledOff hread => cases hread
  | rowEnd _ hy hx _ ih =>
    obtain ⟨u', hout, hwork⟩ := ih hr trivial (hs.alike (.enter _)) (hu.alike (.enter _))
      (hsu.alike (.enter _) (.enter _))
    exact ⟨u', .rowEnd rfl hy hx hout, (SameWork.enter ..).trans hwork⟩
  | complete => cases hr
  | covered _ hy hx hset _ ih =>
    obtain ⟨u', hout, hwork⟩ := ih hr trivial (hs.alike (.enter _)) (hu.alike (.enter _))
      (hsu.alike (.enter _) (.enter _))
    rw [← hsu.isSet_eq hs.shape hu.shape hx hy] at hset
    exact ⟨u', .covered rfl hy hx hset hout, (SameWork.enter ..).trans hwork⟩
  | empty _ hy hx hset _ ih =>
    obtain ⟨u', hout, hwork⟩ := ih hr (fun _ hc => hc) (hs.alike (.enter _)) (hu.alike (.enter _))
      (hsu.alike (.enter _) (.enter _))
    rw [← hsu.isSet_eq hs.shape hu.shape hx hy] at hset
    exact ⟨u', .empty rfl hy hx hset (attempt_perm hout hσ.perm_candidates),
      (SameWork.enter ..).trans hwork⟩
  | exhausted => exact ⟨u, .exhausted, rfl, rfl⟩
  | @refused x y c cs s s' r hadm _ ih =>
    have hc := ht c (List.mem_cons_self ..)
    obtain ⟨u', hout, hwork⟩ := ih hr (fun c hc => ht c (List.mem_cons_of_mem _ hc)) hs hu hsu
    rw [← hsu.admits_eq hs.shape hu.shape hc] at hadm
    exact ⟨u', .refused hadm hout, hwork⟩
  | found => cases hr
  | @undone x y c cs s s₁ s₂ s₃ s' r hadm hlay onward hback _ ih ihNext =>
    have hc := ht c (List.mem_cons_self ..)
    have hadm' := (hsu.admits_eq hs.shape hu.shape hc).trans hadm
    obtain ⟨s₁', hlay₁, hs₁⟩ := hs.exists_place hc hadm
    obtain rfl := Except.ok.inj (hlay.symm.trans hlay₁)
    obtain ⟨u₁, hlay', hu₁, hsu₁, hwork₁⟩ := hsu.exists_place hσ.toEmbeds hs hu hc hadm hlay
    obtain ⟨u₂, hout, hwork₂⟩ := ih rfl trivial hs₁ hu₁ hsu₁
    obtain ⟨u₃, hback', hu₃⟩ := hu.exists_takeBack_place (hσ.toEmbeds.mem_candidates hc) hadm' hlay'
      (hout.restores rfl)
    have hs₃ := Progress.takeBack_place hadm hlay (onward.restores rfl) hback
    obtain ⟨u', hnext, hwork⟩ := ihNext hr (fun c hc => ht c (List.mem_cons_of_mem _ hc))
      (hs.alike hs₃) (hu.alike hu₃) (hsu.alike hs₃ hu₃)
    exact ⟨u', .undone hadm' hlay' hout hback' hnext,
      ((hwork₁.trans hwork₂).trans (.takeBack hback hback')).trans hwork⟩

end Outcome

/-! ### Searches with either list -/

variable {p : Placement} {v v' : Verdict}

theorem unsolved_of_perm (h : ds.Perm es) (hv : solveFrom b p ds x y = .ok v)
    (hfails : v.solved = false) : solveFrom b p es x y = .ok v := by
  obtain ⟨hp, r, s, hrun, hsteps, rfl⟩ := solveFrom_eq_ok_iff.1 hv
  obtain rfl : r = false := hfails
  obtain ⟨σ, hσ⟩ := exists_renames h
  have houtcome := run_eq_ok_iff.1 hrun
  obtain ⟨u, hout, hwork⟩ := houtcome.exists_renamed rfl hσ trivial (Progress.sized_start hp)
    (Progress.sized_start hp) (.start hσ.toEmbeds)
  obtain ⟨hnodes, hbacktracks⟩ := hwork.of_start
  have hplacement : u.placement = s.placement :=
    (hout.restores rfl).placement.trans (houtcome.restores rfl).placement.symm
  refine solveFrom_eq_ok_iff.2 ⟨hp, false, u, run_eq_ok_iff.2 hout, by omega, ?_⟩
  rw [hplacement, h.length_eq, hnodes, hbacktracks]

theorem unsolved_of_reordered (h : Reordered ds ds') (hv : solveFrom b p ds x y = .ok v)
    (hfails : v.solved = false) : solveFrom b p ds' x y = .ok v := by
  obtain ⟨es, hperm, hturned⟩ := h
  rw [solveFrom_turned hturned]
  exact unsolved_of_perm hperm hv hfails

/-- Whether there is a cover does not depend on the order of the dominoes or of their sides, nor does
the work of a search that finds none. Where only sides change places, nothing does. -/
theorem solveFrom_reordered (h : Reordered ds ds') :
    (∀ v v', solveFrom b p ds x y = .ok v → solveFrom b p ds' x y = .ok v' →
      v'.solved = v.solved ∧
        (v.solved = false → v'.nodes = v.nodes ∧ v'.backtracks = v.backtracks)) ∧
    (∀ v, v.solved = false → (solveFrom b p ds x y = .ok v ↔ solveFrom b p ds' x y = .ok v)) ∧
    (Turned ds ds' → solveFrom b p ds' x y = solveFrom b p ds x y) := by
  refine ⟨?_, ?_, solveFrom_turned⟩
  · intro v v' hv hv'
    cases hsolved : v.solved with
    | false =>
      obtain rfl := Except.ok.inj ((unsolved_of_reordered h hv hsolved).symm.trans hv')
      exact ⟨hsolved, fun _ => ⟨rfl, rfl⟩⟩
    | true =>
      refine ⟨?_, fun hfails => (by cases hfails)⟩
      by_contra hne
      have hfails := Bool.eq_false_iff.2 hne
      have heq := Except.ok.inj ((unsolved_of_reordered h.symm hv' hfails).symm.trans hv)
      rw [← heq, hfails] at hsolved
      cases hsolved
  · intro v hfails
    exact ⟨fun hv => unsolved_of_reordered h hv hfails,
      fun hv => unsolved_of_reordered h.symm hv hfails⟩

theorem solveFrom_reordered_two_by_two :
    ∃ (b : Board) (p : Placement) (v : Verdict), v.solved = false ∧ 0 < v.backtracks ∧
      solveFrom b p [⟨0, 1⟩, ⟨0, 0⟩, ⟨0, 0⟩] 0 0 = .ok v ∧
      solveFrom b p [⟨0, 0⟩, ⟨1, 0⟩, ⟨0, 0⟩] 0 0 = .ok v := by
  have h : solveFrom ⟨2, 2, #[0, 1, 0, 1], rfl, by decide⟩
      ⟨2, 2, #[none, none, none, none], rfl, by decide⟩ [⟨0, 1⟩, ⟨0, 0⟩, ⟨0, 0⟩] 0 0 =
      .ok ⟨false, ⟨2, 2, #[none, none, none, none], rfl, by decide⟩, 3, 6, 3⟩ := by
    cbv
  have hlists : Reordered [⟨0, 1⟩, ⟨0, 0⟩, ⟨0, 0⟩] [⟨0, 0⟩, ⟨1, 0⟩, ⟨0, 0⟩] :=
    ⟨[⟨0, 0⟩, ⟨0, 1⟩, ⟨0, 0⟩], .swap .., .cons (.inl rfl) (.cons (.inr rfl) (.cons (.inl rfl) .nil))⟩
  exact ⟨_, _, _, rfl, by decide, h, ((solveFrom_reordered hlists).2.1 _ rfl).1 h⟩

end Search
end DominoTiling
