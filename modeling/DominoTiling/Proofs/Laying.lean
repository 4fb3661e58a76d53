import DominoTiling.Search.Run
import DominoTiling.Proofs.Tiling

/-!
# Laying a domino and taking it back

What `Progress.place` and `Progress.takeBack` do to the cells and to the positions in use. Taking
back writes empty cells instead of what was there before, and that is the same only because a
candidate is admitted on two empty cells and while it is not in use: `takeBack_place` needs
`admits`. It needs nothing else, in particular not that the placement has the shape of the board.
-/

namespace DominoTiling.Search

/-- A domino of the list: its position, the domino itself and a direction. -/
theorem mem_candidates_iff {ds : List Domino} {c : Candidate} :
    c ∈ candidates ds ↔ ds[c.index]? = some c.domino := by
  obtain ⟨i, d, o⟩ := c
  simp only [candidates, List.mem_flatMap, Prod.exists, List.mem_zipIdx_iff_getElem?, List.mem_cons,
    List.not_mem_nil, or_false, Candidate.mk.injEq]
  constructor
  · rintro ⟨d', i', h, ⟨rfl, rfl, -⟩ | ⟨rfl, rfl, -⟩⟩ <;> exact h
  · intro h
    refine ⟨d, i, h, ?_⟩
    cases o <;> simp

theorem index_lt_of_mem {ds : List Domino} {c : Candidate} (h : c ∈ candidates ds) :
    c.index < ds.length :=
  (List.getElem?_eq_some_iff.1 (mem_candidates_iff.1 h)).1

theorem length_candidates (ds : List Domino) : (candidates ds).length = 2 * ds.length := by
  simp [candidates, List.length_flatMap, Nat.mul_comm]

/-- The tile of a candidate laid at `(x, y)`. -/
def Candidate.tile (c : Candidate) (x y : Nat) : Tile :=
  ⟨c.index, (x, y), c.orientation.mate (x, y)⟩

namespace Progress

/-- The same cells covered in the same way, with the same positions in use. -/
structure Alike (s t : Progress) : Prop where
  placement : s.placement = t.placement
  inUse : s.inUse = t.inUse

namespace Alike
variable {s t u : Progress}

theorem refl (s : Progress) : s.Alike s := ⟨rfl, rfl⟩

theorem trans (h : s.Alike t) (h' : t.Alike u) : s.Alike u :=
  ⟨h.placement.trans h'.placement, h.inUse.trans h'.inUse⟩

theorem symm (h : s.Alike t) : t.Alike s := ⟨h.placement.symm, h.inUse.symm⟩

theorem enter (s : Progress) : s.enter.Alike s := ⟨rfl, rfl⟩

end Alike

variable {b : Board} {c : Candidate} {x y : Nat} {s s' s₁ s₂ s₃ : Progress}

theorem admits_eq_true_iff :
    s.admits b c x y = .ok true ↔
      s.inUse.contains c.index = .ok false ∧
        c.domino.fits b s.placement x y c.orientation = .ok true := by
  constructor
  · intro h
    obtain ⟨v, hv, h⟩ := bind_eq_ok_iff.1 h
    cases v with
    | true => cases h
    | false => exact ⟨hv, h⟩
  · rintro ⟨hv, h⟩
    simp only [admits, hv]
    exact h

theorem place_eq_ok (h : s.place c x y = .ok s') :
    ∃ used p₁ p₂, s.inUse.insert c.index = .ok used ∧
      s.placement.set x y (some c.index) = .ok p₁ ∧
      p₁.set (c.orientation.mate (x, y)).1 (c.orientation.mate (x, y)).2 (some c.index) = .ok p₂ ∧
      s' = ⟨p₂, used, s.nodes, s.backtracks⟩ := by
  obtain ⟨placement, inUse, nodes, backtracks⟩ := s
  obtain ⟨m, hm, h⟩ := bind_eq_ok_iff.1 h
  obtain rfl := Orientation.partner_eq_ok hm
  obtain ⟨used, hu, h⟩ := bind_eq_ok_iff.1 h
  obtain ⟨p₁, h₁, h⟩ := bind_eq_ok_iff.1 h
  obtain ⟨p₂, h₂, h⟩ := bind_eq_ok_iff.1 h
  exact ⟨used, p₁, p₂, hu, h₁, h₂, (Except.ok.inj h).symm⟩

theorem takeBack_eq_ok (h : s.takeBack c x y = .ok s') :
    ∃ p₁ p₂ used, s.placement.set x y none = .ok p₁ ∧
      p₁.set (c.orientation.mate (x, y)).1 (c.orientation.mate (x, y)).2 none = .ok p₂ ∧
      s.inUse.remove c.index = .ok used ∧
      s' = ⟨p₂, used, s.nodes, s.backtracks + 1⟩ := by
  obtain ⟨placement, inUse, nodes, backtracks⟩ := s
  obtain ⟨m, hm, h⟩ := bind_eq_ok_iff.1 h
  obtain rfl := Orientation.partner_eq_ok hm
  obtain ⟨p₁, h₁, h⟩ := bind_eq_ok_iff.1 h
  obtain ⟨p₂, h₂, h⟩ := bind_eq_ok_iff.1 h
  obtain ⟨used, hu, h⟩ := bind_eq_ok_iff.1 h
  exact ⟨p₁, p₂, used, h₁, h₂, hu, (Except.ok.inj h).symm⟩

theorem nodes_place (h : s.place c x y = .ok s') : s'.nodes = s.nodes := by
  obtain ⟨_, _, _, -, -, -, rfl⟩ := place_eq_ok h
  rfl

theorem backtracks_place (h : s.place c x y = .ok s') : s'.backtracks = s.backtracks := by
  obtain ⟨_, _, _, -, -, -, rfl⟩ := place_eq_ok h
  rfl

theorem nodes_takeBack (h : s.takeBack c x y = .ok s') : s'.nodes = s.nodes := by
  obtain ⟨_, _, _, -, -, -, rfl⟩ := takeBack_eq_ok h
  rfl

theorem backtracks_takeBack (h : s.takeBack c x y = .ok s') : s'.backtracks = s.backtracks + 1 := by
  obtain ⟨_, _, _, -, -, -, rfl⟩ := takeBack_eq_ok h
  rfl

/-- Where a candidate is admitted, both positions it covers hold nothing. -/
theorem cells_of_admits (h : s.admits b c x y = .ok true) :
    s.placement.cells[x * s.placement.cols + y]? = some none ∧
      s.placement.cells[(c.orientation.mate (x, y)).1 * s.placement.cols +
        (c.orientation.mate (x, y)).2]? = some none := by
  obtain ⟨-, hset, hset', -⟩ := Domino.fits_eq_true (admits_eq_true_iff.1 h).2
  exact ⟨Placement.cells_of_isSet hset, Placement.cells_of_isSet hset'⟩

/-- Taking back an admitted candidate undoes laying it. -/
theorem takeBack_place (hadm : s.admits b c x y = .ok true) (hlay : s.place c x y = .ok s₁)
    (hs : s₂.Alike s₁) (hback : s₂.takeBack c x y = .ok s₃) : s₃.Alike s := by
  obtain ⟨hfree, hfree'⟩ := cells_of_admits hadm
  obtain ⟨used, p₁, p₂, hin, h₁, h₂, rfl⟩ := place_eq_ok hlay
  obtain ⟨p₃, p₄, used', h₃, h₄, hout, rfl⟩ := takeBack_eq_ok hback
  rw [hs.placement] at h₃
  rw [hs.inUse] at hout
  obtain ⟨hr₁, hc₁, hcells₁⟩ := Grid.set_eq_ok h₁
  obtain ⟨hr₂, hc₂, hcells₂⟩ := Grid.set_eq_ok h₂
  obtain ⟨hr₃, hc₃, hcells₃⟩ := Grid.set_eq_ok h₃
  obtain ⟨hr₄, hc₄, hcells₄⟩ := Grid.set_eq_ok h₄
  dsimp only at hr₃ hc₃ hcells₃
  refine ⟨Grid.ext_cells (by rw [hr₄, hr₃, hr₂, hr₁]) (by rw [hc₄, hc₃, hc₂, hc₁]) fun k => ?_,
    IndexSet.remove_insert (admits_eq_true_iff.1 hadm).1 hin hout⟩
  show p₄.cells[k]? = s.placement.cells[k]?
  rw [hcells₄, hcells₃, hcells₂, hcells₁, hc₃, hc₂, hc₁]
  split
  · rename_i hk
    rw [hk, hfree']
  · split
    · rename_i hk
      rw [hk, hfree]
    · rfl

/-- Laying an admitted candidate changes no position that holds something. -/
theorem cells_place (hadm : s.admits b c x y = .ok true) (hlay : s.place c x y = .ok s₁)
    {k i : Nat} (hk : s.placement.cells[k]? = some (some i)) :
    s₁.placement.cells[k]? = some (some i) := by
  obtain ⟨hfree, hfree'⟩ := cells_of_admits hadm
  obtain ⟨used, p₁, p₂, -, h₁, h₂, rfl⟩ := place_eq_ok hlay
  obtain ⟨-, hc₁, hcells₁⟩ := Grid.set_eq_ok h₁
  obtain ⟨-, -, hcells₂⟩ := Grid.set_eq_ok h₂
  show p₂.cells[k]? = some (some i)
  rw [hcells₂, hcells₁, hc₁, if_neg, if_neg, hk]
  · rintro rfl
    rw [hfree] at hk
    cases hk
  · rintro rfl
    rw [hfree'] at hk
    cases hk

theorem shape_place (hlay : s.place c x y = .ok s₁) :
    s₁.placement.rows = s.placement.rows ∧ s₁.placement.cols = s.placement.cols := by
  obtain ⟨used, p₁, p₂, -, h₁, h₂, rfl⟩ := place_eq_ok hlay
  obtain ⟨hr₁, hc₁, -⟩ := Grid.set_eq_ok h₁
  obtain ⟨hr₂, hc₂, -⟩ := Grid.set_eq_ok h₂
  exact ⟨hr₂.trans hr₁, hc₂.trans hc₁⟩

theorem hasShape_place (hp : s.placement.HasShape b) (hlay : s.place c x y = .ok s₁) :
    s₁.placement.HasShape b :=
  ⟨(shape_place hlay).1.trans hp.1, (shape_place hlay).2.trans hp.2⟩

/-- Laying an admitted candidate covers its two cells and no other one. -/
theorem at?_place (hp : s.placement.HasShape b) (hadm : s.admits b c x y = .ok true)
    (hlay : s.place c x y = .ok s₁) (u : Nat × Nat) :
    s₁.placement.at? u =
      if u = c.orientation.mate (x, y) then some (some c.index)
      else if u = (x, y) then some (some c.index) else s.placement.at? u := by
  obtain ⟨-, hmate, -⟩ := (Domino.fits_iff hp).1 (admits_eq_true_iff.1 hadm).2
  obtain ⟨used, p₁, p₂, -, h₁, h₂, rfl⟩ := place_eq_ok hlay
  obtain ⟨hr₁, hc₁, -⟩ := Grid.set_eq_ok h₁
  have hon := Grid.lt_of_at? hmate
  have hcell := Orientation.lt_of_mate_lt hon
  show p₂.at? u = _
  rw [Grid.at?_set h₂ (hr₁ ▸ hon.1) (hc₁ ▸ hon.2), Grid.at?_set h₁ hcell.1 hcell.2]

theorem contains_place (hlay : s.place c x y = .ok s₁) (i : Nat) :
    s₁.inUse.contains i = if i = c.index then .ok true else s.inUse.contains i := by
  obtain ⟨used, p₁, p₂, hin, -, -, rfl⟩ := place_eq_ok hlay
  exact IndexSet.contains_insert hin i

end Progress
end DominoTiling.Search
