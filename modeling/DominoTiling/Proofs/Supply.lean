import DominoTiling.Proofs.Layout
import DominoTiling.Proofs.Reordering

/-!
# Boards solved from other supplies

A board that was laid out is tiled by the dominoes it was laid from. Where these are found in another
supply, in any order, turned either way, with any others between them, each has a position of its own
there, and the tiling with its positions renamed is one by that supply (`BoardTiling.of_holds`). A
search with the supply may well try other dominoes first, and lay some that no cover has; it decides
whether there is a tiling, so it ends with a cover.
-/

namespace DominoTiling
open Search (Embeds)
variable {b : Board} {ds es : List Domino} {ts : List Tile} {t : Tile} {σ : Nat → Nat}

/-- The supply has the dominoes of the list, each as often as the list does, turned either way. -/
def Holds (es ds : List Domino) : Prop := ∃ fs, Turned ds fs ∧ fs.Subperm es

theorem Turned.exists_domino (h : Turned ds es) {i : Nat} {d : Domino} (hd : ds[i]? = some d) :
    ∃ e, es[i]? = some e ∧ ∀ p q, e.covers p q = d.covers p q := by
  induction h generalizing i with
  | nil => cases hd
  | @cons d' e' ds es hturned _ ih =>
    cases i with
    | zero =>
      obtain rfl := Option.some.inj hd
      refine ⟨e', rfl, fun p q => ?_⟩
      rcases hturned with rfl | rfl
      · rfl
      · exact d'.covers_swap p q
    | succ i => exact ih hd

/-! ### Tilings by other dominoes -/

def Tile.rename (σ : Nat → Nat) (t : Tile) : Tile := { t with index := σ t.index }

namespace Tile.Lies

theorem turned (h : t.Lies b ds) (hturned : Turned ds es) : t.Lies b es := by
  obtain ⟨hadj, d, m, n, hd, hm, hn, hcov⟩ := h
  obtain ⟨e, he, hcovers⟩ := hturned.exists_domino hd
  exact ⟨hadj, e, m, n, he, hm, hn, (hcovers m n).trans hcov⟩

theorem renamed (h : t.Lies b ds) (hσ : Embeds ds es σ) : (t.rename σ).Lies b es := by
  have hindex := h.index_lt
  obtain ⟨hadj, d, m, n, hd, hm, hn, hcov⟩ := h
  exact ⟨hadj, d, m, n, (hσ.getElem t.index hindex).trans hd, hm, hn, hcov⟩

end Tile.Lies

namespace BoardTiling

theorem turned (h : BoardTiling b ds ts) (hturned : Turned ds es) : BoardTiling b es ts :=
  ⟨fun t ht => (h.lies t ht).turned hturned, h.cells_nodup, h.index_nodup, h.mem_cells_iff⟩

theorem renamed (h : BoardTiling b ds ts) (hσ : Embeds ds es σ) :
    BoardTiling b es (ts.map (Tile.rename σ)) := by
  have hcells : (ts.map (Tile.rename σ)).flatMap Tile.cells = ts.flatMap Tile.cells := by
    rw [List.flatMap_map]
    rfl
  refine ⟨fun t ht => ?_, hcells ▸ h.cells_nodup, ?_, fun c => hcells ▸ h.mem_cells_iff c⟩
  · obtain ⟨u, hu, rfl⟩ := List.mem_map.1 ht
    exact (h.lies u hu).renamed hσ
  · have hindex : (ts.map (Tile.rename σ)).map Tile.index = (ts.map Tile.index).map σ := by
      rw [List.map_map, List.map_map]
      rfl
    rw [hindex]
    refine h.index_nodup.map_on fun i hi j hj => ?_
    obtain ⟨t, ht, rfl⟩ := List.mem_map.1 hi
    obtain ⟨u, hu, rfl⟩ := List.mem_map.1 hj
    exact hσ.inj _ (h.lies t ht).index_lt _ (h.lies u hu).index_lt

theorem of_holds (h : BoardTiling b ds ts) (hes : Holds es ds) : ∃ ts, BoardTiling b es ts := by
  obtain ⟨fs, hturned, hsub⟩ := hes
  obtain ⟨σ, hσ⟩ := Search.exists_embeds hsub
  exact ⟨_, (h.turned hturned).renamed hσ⟩

end BoardTiling

/-! ### Boards laid out -/

namespace Layout
open Search
variable {rows cols half : Nat} {p : Placement}

theorem exists_boardTiling (hlaid : board rows (2 * half) ds = .ok b)
    (hes : Holds es (ds.take (rows * half))) : ∃ ts, BoardTiling b es ts := by
  obtain ⟨hle, -⟩ := of_board hlaid
  have htake := board_take hle
  rw [show (2 * half + 1) / 2 = half by omega, hlaid] at htake
  exact (boardTiling htake).of_holds hes

/-- A board laid out in an even number of columns is solved on an empty placement with any supply that
has the dominoes it shows. -/
theorem solve_of_supply (hcols : 2 ≤ cols) (heven : cols % 2 = 0)
    (hlaid : board rows cols ds = .ok b) (hes : Holds es (ds.take (rows * cols / 2)))
    (hp : p.HasShape b) (hclear : p.isClear = true) :
    (∀ e, solve b p es ≠ .error (.error e)) ∧
    (∀ v, solve b p es = .ok v → v.solved = true) ∧
    (StepsFit b es p 0 0 → ∃ v, solve b p es = .ok v) := by
  obtain ⟨half, rfl⟩ := Nat.dvd_of_mod_eq_zero heven
  refine ⟨fun e => solve_ne_error hp, ?_, ?_⟩
  · intro v hv
    rw [Nat.mul_left_comm, Nat.mul_div_cancel_left _ (by decide)] at hes
    exact (solved_iff_of_clear hclear hv).2 (exists_boardTiling hlaid hes)
  · intro hsteps
    obtain ⟨-, -, hwidth, -⟩ := of_board hlaid
    exact exists_solveFrom (by omega) hp (.inl (by decide)) hsteps

/-- The domino that lies upright at first has to be taken back: it is in no cover. -/
theorem solve_of_supply_two_by_two :
    Holds [⟨0, 0⟩, ⟨1, 0⟩, ⟨5, 5⟩, ⟨1, 0⟩] [⟨0, 1⟩, ⟨0, 1⟩] ∧
    ∃ b p v, board 2 2 [⟨0, 1⟩, ⟨0, 1⟩, ⟨7, 7⟩] = .ok b ∧ Placement.forBoard b = .ok p ∧
      solve b p [⟨0, 0⟩, ⟨1, 0⟩, ⟨5, 5⟩, ⟨1, 0⟩] = .ok v ∧ 0 < v.backtracks ∧ v.solved = true := by
  have hholds : Holds [⟨0, 0⟩, ⟨1, 0⟩, ⟨5, 5⟩, ⟨1, 0⟩] [⟨0, 1⟩, ⟨0, 1⟩] :=
    ⟨[⟨1, 0⟩, ⟨1, 0⟩], .cons (.inr rfl) (.cons (.inr rfl) .nil),
      ((List.Sublist.cons_cons _ (.cons _ (.refl _))).cons _).subperm⟩
  have hlaid : board 2 2 [⟨0, 1⟩, ⟨0, 1⟩, ⟨7, 7⟩] = .ok ⟨2, 2, #[0, 1, 0, 1], rfl, by decide⟩ := by
    rfl
  have hempty : Placement.forBoard ⟨2, 2, #[0, 1, 0, 1], rfl, by decide⟩ =
      .ok ⟨2, 2, #[none, none, none, none], rfl, by decide⟩ := by
    rfl
  have hsolve : solve ⟨2, 2, #[0, 1, 0, 1], rfl, by decide⟩
      ⟨2, 2, #[none, none, none, none], rfl, by decide⟩ [⟨0, 0⟩, ⟨1, 0⟩, ⟨5, 5⟩, ⟨1, 0⟩] =
      .ok ⟨true, ⟨2, 2, #[some 1, some 1, some 3, some 3], rfl, by decide⟩, 4, 8, 1⟩ := by
    cbv
  have hsolved := (solve_of_supply (by decide) (by decide) hlaid hholds ⟨rfl, rfl⟩
    (Placement.isClear_forBoard hempty)).2.1 _ hsolve
  exact ⟨hholds, _, _, _, hlaid, hempty, hsolve, by decide, hsolved⟩

end Layout
end DominoTiling
