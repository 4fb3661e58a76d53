import DominoTiling.Proofs.Pairing

/-!
# Boards turned over

A grid can be turned over its diagonal, upside down, and left to right (`Grid.transposed`,
`Grid.upsideDown`, `Grid.mirrored`); each is the same cells in other places (`Grid.rearranged`). The
search goes through such boards in ways that have nothing in common. But cells with a side in common
stay so and keep their pips, so a tiling of one board is carried to one of the other
(`Board.Image.boardTiling`), and whether there is one is all that the answer says.
-/

namespace DominoTiling

/-! ### The cells of a grid in other places -/

namespace Grid
variable {α : Type} {g : Grid α} {c : Nat × Nat}

theorem pos_lt_of {g : Grid α} (h : c.1 < g.rows ∧ c.2 < g.cols) :
    c.1 * g.cols + c.2 < g.cells.size := pos_lt h.1 h.2

/-- The grid of this size whose cell `c` is the cell `σ c` of `g`. -/
def rearranged (g : Grid α) (rows cols : Nat) (hsize : rows * cols = g.rows * g.cols)
    (σ : Nat × Nat → Nat × Nat)
    (hσ : ∀ c : Nat × Nat, c.1 < rows ∧ c.2 < cols → (σ c).1 < g.rows ∧ (σ c).2 < g.cols) :
    Grid α where
  rows := rows
  cols := cols
  cells := Array.ofFn fun k : Fin (rows * cols) =>
    have hcell := hσ (k / cols, k % cols) ⟨Nat.div_lt_of_lt_mul (Nat.mul_comm rows cols ▸ k.isLt),
      Nat.mod_lt _ (Nat.pos_of_ne_zero fun h => by simpa [h] using k.pos)⟩
    have hpos := pos_lt_of hcell
    g.cells[(σ (k / cols, k % cols)).1 * g.cols + (σ (k / cols, k % cols)).2]
  size_cells := Array.size_ofFn
  size_lt := by rw [Array.size_ofFn, hsize, ← g.size_cells]; exact g.size_lt

theorem at?_rearranged {rows cols : Nat} {hsize : rows * cols = g.rows * g.cols}
    {σ : Nat × Nat → Nat × Nat}
    {hσ : ∀ c : Nat × Nat, c.1 < rows ∧ c.2 < cols → (σ c).1 < g.rows ∧ (σ c).2 < g.cols}
    (hc : c.1 < rows ∧ c.2 < cols) : (g.rearranged rows cols hsize σ hσ).at? c = g.at? (σ c) := by
  have hon := hσ c hc
  have hpos : c.1 * cols + c.2 < rows * cols := by
    have hle : (c.1 + 1) * cols ≤ rows * cols := Nat.mul_le_mul_right _ hc.1
    rw [Nat.succ_mul] at hle
    omega
  have hdiv : (c.1 * cols + c.2) / cols = c.1 := by
    rw [Nat.mul_comm, Nat.mul_add_div (Nat.zero_lt_of_lt hc.2), Nat.div_eq_of_lt hc.2, Nat.add_zero]
  have hmod : (c.1 * cols + c.2) % cols = c.2 := by
    rw [Nat.mul_comm, Nat.mul_add_mod, Nat.mod_eq_of_lt hc.2]
  simp only [at?, rearranged, hc, hon, and_self, ↓reduceIte, Array.getElem?_ofFn, hpos, hdiv, hmod,
    Array.getElem?_eq_getElem (pos_lt_of hon), ↓reduceDIte]

/-- Rows become columns. -/
def transposed (g : Grid α) : Grid α :=
  g.rearranged g.cols g.rows (Nat.mul_comm ..) (fun c => (c.2, c.1)) fun _ hc => ⟨hc.2, hc.1⟩

/-- The last row comes first. -/
def upsideDown (g : Grid α) : Grid α :=
  g.rearranged g.rows g.cols rfl (fun c => (g.rows - 1 - c.1, c.2)) fun _ hc =>
    ⟨by dsimp only; omega, hc.2⟩

/-- The last cell of each row comes first. -/
def mirrored (g : Grid α) : Grid α :=
  g.rearranged g.rows g.cols rfl (fun c => (c.1, g.cols - 1 - c.2)) fun _ hc =>
    ⟨hc.1, by dsimp only; omega⟩

end Grid

/-! ### Boards with the same cells in other places -/

namespace Board

/-- The cells of `b` are found in `b'` under `σ`, neighbours as neighbours, and `τ` leads back. -/
structure Carries (b b' : Board) (σ τ : Nat × Nat → Nat × Nat) : Prop where
  at? : ∀ c m, b.at? c = some m → b'.at? (σ c) = some m
  adjacent : ∀ u v, (u.1 < b.rows ∧ u.2 < b.cols) → (v.1 < b.rows ∧ v.2 < b.cols) →
    Placement.adjacent u v = true → Placement.adjacent (σ u) (σ v) = true
  back : ∀ c : Nat × Nat, c.1 < b.rows ∧ c.2 < b.cols → τ (σ c) = c

/-- Each cell of one board is a cell of the other. -/
structure Image (b b' : Board) (σ τ : Nat × Nat → Nat × Nat) : Prop where
  there : Carries b b' σ τ
  back : Carries b' b τ σ

variable {b b' : Board} {σ τ : Nat × Nat → Nat × Nat} {ds : List Domino}

theorem Image.symm (h : Image b b' σ τ) : Image b' b τ σ := ⟨h.back, h.there⟩

namespace Carries

theorem on (h : Carries b b' σ τ) {c : Nat × Nat} (hc : c.1 < b.rows ∧ c.2 < b.cols) :
    (σ c).1 < b'.rows ∧ (σ c).2 < b'.cols := by
  obtain ⟨m, hm⟩ := Grid.exists_at? hc
  exact Grid.lt_of_at? (h.at? c m hm)

theorem maxPips_le (h : Carries b b' σ τ) : b.maxPips ≤ b'.maxPips := by
  rw [maxPips_le_iff]
  intro c m hm
  exact maxPips_le_iff.1 (Nat.le_refl _) _ m (h.at? c m hm)

end Carries

theorem Image.maxPips_eq (h : Image b b' σ τ) : b'.maxPips = b.maxPips :=
  Nat.le_antisymm h.back.maxPips_le h.there.maxPips_le

end Board

def Tile.move (σ : Nat × Nat → Nat × Nat) (t : Tile) : Tile := ⟨t.index, σ t.first, σ t.second⟩

theorem Tile.flatMap_cells_move (σ : Nat × Nat → Nat × Nat) (ts : List Tile) :
    (ts.map (Tile.move σ)).flatMap Tile.cells = (ts.flatMap Tile.cells).map σ := by
  simp [List.flatMap_map, List.map_flatMap, Tile.cells, Tile.move]

section
variable {b b' : Board} {σ τ : Nat × Nat → Nat × Nat} {ds : List Domino} {ts : List Tile}

theorem Board.Carries.lies {t : Tile} (h : b.Carries b' σ τ) (ht : t.Lies b ds) :
    (t.move σ).Lies b' ds := by
  obtain ⟨hadj, d, m, n, hd, hm, hn, hcov⟩ := ht
  exact ⟨h.adjacent _ _ (Grid.lt_of_at? hm) (Grid.lt_of_at? hn) hadj, d, m, n, hd, h.at? _ _ hm,
    h.at? _ _ hn, hcov⟩

theorem Board.Image.boardTiling (h : b.Image b' σ τ) (hts : BoardTiling b ds ts) :
    BoardTiling b' ds (ts.map (Tile.move σ)) := by
  have hinj : ∀ u ∈ ts.flatMap Tile.cells, ∀ v ∈ ts.flatMap Tile.cells, σ u = σ v → u = v := by
    intro u hu v hv heq
    rw [← h.there.back u ((hts.mem_cells_iff u).1 hu), heq,
      h.there.back v ((hts.mem_cells_iff v).1 hv)]
  refine ⟨?_, ?_, ?_, ?_⟩
  · intro t ht
    obtain ⟨t, hmem, rfl⟩ := List.mem_map.1 ht
    exact h.there.lies (hts.lies t hmem)
  · rw [Tile.flatMap_cells_move]
    exact hts.cells_nodup.map_on hinj
  · rw [List.map_map]
    exact hts.index_nodup
  · intro c
    rw [Tile.flatMap_cells_move, List.mem_map]
    constructor
    · rintro ⟨u, hu, rfl⟩
      exact h.there.on ((hts.mem_cells_iff u).1 hu)
    · intro hc
      exact ⟨τ c, (hts.mem_cells_iff _).2 (h.back.on hc), h.back.back c hc⟩

theorem Board.Image.exists_boardTiling_iff (h : b.Image b' σ τ) :
    (∃ ts, BoardTiling b' ds ts) ↔ ∃ ts, BoardTiling b ds ts :=
  ⟨fun ⟨_, hts⟩ => ⟨_, h.symm.boardTiling hts⟩, fun ⟨_, hts⟩ => ⟨_, h.boardTiling hts⟩⟩

end

/-! ### The board and its images -/

namespace Board
variable {b b' : Board}

theorem image_rearranged {rows cols : Nat} {hsize : rows * cols = b.rows * b.cols}
    {σ τ : Nat × Nat → Nat × Nat}
    {hσ : ∀ c : Nat × Nat, c.1 < rows ∧ c.2 < cols → (σ c).1 < b.rows ∧ (σ c).2 < b.cols}
    (hτ : ∀ c : Nat × Nat, c.1 < b.rows ∧ c.2 < b.cols →
      ((τ c).1 < rows ∧ (τ c).2 < cols) ∧ σ (τ c) = c)
    (hback : ∀ c : Nat × Nat, c.1 < rows ∧ c.2 < cols → τ (σ c) = c)
    (hadjacent : ∀ u v : Nat × Nat, (u.1 < rows ∧ u.2 < cols) → (v.1 < rows ∧ v.2 < cols) →
      (Placement.adjacent (σ u) (σ v) = true ↔ Placement.adjacent u v = true)) :
    b.Image (b.rearranged rows cols hsize σ hσ) τ σ := by
  refine ⟨⟨?_, ?_, fun c hc => (hτ c hc).2⟩, ⟨?_, ?_, hback⟩⟩
  · intro c m hm
    obtain ⟨hon, heq⟩ := hτ c (Grid.lt_of_at? hm)
    rw [Grid.at?_rearranged hon, heq, hm]
  · intro u v hu hv hadj
    obtain ⟨hu, hσu⟩ := hτ u hu
    obtain ⟨hv, hσv⟩ := hτ v hv
    rwa [← hadjacent _ _ hu hv, hσu, hσv]
  · intro c m hm
    rw [← Grid.at?_rearranged (Grid.lt_of_at? hm)]
    exact hm
  · intro u v hu hv hadj
    exact (hadjacent u v hu hv).2 hadj

theorem image_transposed (b : Board) :
    b.Image b.transposed (fun c => (c.2, c.1)) (fun c => (c.2, c.1)) := by
  refine image_rearranged ?_ ?_ ?_
  · exact fun _ hc => ⟨⟨hc.2, hc.1⟩, rfl⟩
  · exact fun _ _ => rfl
  · intro u v _ _
    rw [Placement.adjacent_iff, Placement.adjacent_iff]
    omega

theorem image_upsideDown (b : Board) :
    b.Image b.upsideDown (fun c => (b.rows - 1 - c.1, c.2)) (fun c => (b.rows - 1 - c.1, c.2)) := by
  refine image_rearranged ?_ ?_ ?_
  · exact fun _ hc => ⟨⟨by dsimp only; omega, hc.2⟩, Prod.ext (by dsimp only; omega) rfl⟩
  · exact fun _ hc => Prod.ext (by dsimp only; omega) rfl
  · intro u v hu hv
    rw [Placement.adjacent_iff, Placement.adjacent_iff]
    omega

theorem image_mirrored (b : Board) :
    b.Image b.mirrored (fun c => (c.1, b.cols - 1 - c.2)) (fun c => (c.1, b.cols - 1 - c.2)) := by
  refine image_rearranged ?_ ?_ ?_
  · exact fun _ hc => ⟨⟨hc.1, by dsimp only; omega⟩, Prod.ext rfl (by dsimp only; omega)⟩
  · exact fun _ hc => Prod.ext rfl (by dsimp only; omega)
  · intro u v hu hv
    rw [Placement.adjacent_iff, Placement.adjacent_iff]
    omega

/-- The board turned over its diagonal, upside down, and left to right. -/
def images (b : Board) : List Board := [b.transposed, b.upsideDown, b.mirrored]

/-- An image has as many cells, and it has a column if the board has a row and a column. -/
theorem of_mem_images (h : b' ∈ b.images) :
    b'.rows * b'.cols = b.rows * b.cols ∧ (1 ≤ b.rows → 1 ≤ b.cols → 1 ≤ b'.cols) ∧
      ∃ σ τ, b.Image b' σ τ := by
  simp only [images, List.mem_cons, List.not_mem_nil, or_false] at h
  rcases h with rfl | rfl | rfl
  · exact ⟨Nat.mul_comm .., fun hrows _ => hrows, _, _, b.image_transposed⟩
  · exact ⟨rfl, fun _ hcols => hcols, _, _, b.image_upsideDown⟩
  · exact ⟨rfl, fun _ hcols => hcols, _, _, b.image_mirrored⟩

end Board

/-! ### Solving images -/

namespace Search
variable {b b' : Board} {ds : List Domino} {p p' : Placement}

theorem solve_of_mem_images (hrows : 1 ≤ b.rows) (hcols : 1 ≤ b.cols) (hb' : b' ∈ b.images)
    (hp : p.HasShape b) (hclear : p.isClear = true) (hp' : p'.HasShape b')
    (hclear' : p'.isClear = true) (hsteps : StepsFit b ds p 0 0) (hsteps' : StepsFit b' ds p' 0 0) :
    ∃ v v', solve b p ds = .ok v ∧ solve b' p' ds = .ok v' ∧ v'.solved = v.solved := by
  obtain ⟨-, hcols', σ, τ, himage⟩ := Board.of_mem_images hb'
  obtain ⟨v, hv⟩ : ∃ v, solve b p ds = .ok v := exists_solveFrom hcols hp (.inl (by decide)) hsteps
  obtain ⟨v', hv'⟩ : ∃ v', solve b' p' ds = .ok v' :=
    exists_solveFrom (hcols' hrows hcols) hp' (.inl (by decide)) hsteps'
  refine ⟨v, v', hv, hv', ?_⟩
  rw [Bool.eq_iff_iff, solved_iff_of_clear hclear hv, solved_iff_of_clear hclear' hv',
    himage.exists_boardTiling_iff]

/-- No search of the board with the complete set on an empty placement takes more steps than a word can
count. -/
def BoardStepsFit (b : Board) : Prop :=
  ∀ p, Placement.forBoard b = .ok p → StepsFit b (Domino.upTo b.maxPips) p 0 0

theorem boardStepsFit_of_solveBoard {v : Verdict} (h : solveBoard b = .ok v) : BoardStepsFit b := by
  intro p hp
  obtain ⟨q, hq, hsolve⟩ := solve_of_solveBoard h
  obtain rfl := Except.ok.inj (hq.symm.trans hp)
  exact stepsFit_of_solveFrom hsolve

theorem solveBoard_of_mem_images (hrows : 1 ≤ b.rows) (hcols : 1 ≤ b.cols) (hb' : b' ∈ b.images)
    (hsteps : BoardStepsFit b) (hsteps' : BoardStepsFit b') :
    (∃ f, solveBoard b = .error f ∧ solveBoard b' = .error f) ∨
      ∃ v v', solveBoard b = .ok v ∧ solveBoard b' = .ok v' ∧ v'.solved = v.solved := by
  obtain ⟨hsize, -, σ, τ, himage⟩ := Board.of_mem_images hb'
  have hmax := himage.maxPips_eq
  cases hset : Domino.completeSet b.maxPips with
  | error f => exact .inl ⟨_, solveBoard_of_set_error hset, solveBoard_of_set_error (hmax ▸ hset)⟩
  | ok ds =>
    obtain rfl := Domino.eq_upTo_of_completeSet hset
    have hset' : Domino.completeSet b'.maxPips = .ok (Domino.upTo b'.maxPips) := hmax ▸ hset
    rcases Nat.lt_or_ge (16 * (b.rows * b.cols)) (2 ^ 63) with hbytes | hbytes
    · obtain ⟨p, hp⟩ := Placement.exists_forBoard hbytes
      obtain ⟨p', hp'⟩ := Placement.exists_forBoard (b := b') (by rwa [hsize])
      have hfit' := hsteps' p' hp'
      rw [hmax] at hfit'
      rw [solveBoard_eq hset hp, solveBoard_eq hset' hp', hmax]
      exact .inr (solve_of_mem_images hrows hcols hb' (Placement.at?_forBoard hp).1
        (Placement.isClear_forBoard hp) (Placement.at?_forBoard hp').1 (Placement.isClear_forBoard hp')
        (hsteps p hp) hfit')
    · exact .inl ⟨_, solveBoard_of_placement_error hset (Placement.forBoard_of_le hbytes),
        solveBoard_of_placement_error hset' (Placement.forBoard_of_le (hsize ▸ hbytes))⟩

/-- A board and its images have the same answer with every list of dominoes, on a placement without
dominoes. With the complete set they have a cover, none, or no answer together. -/
theorem solve_images (hrows : 1 ≤ b.rows) (hcols : 1 ≤ b.cols) (hb' : b' ∈ b.images) :
    (∀ ds p p', p.HasShape b → p.isClear = true → p'.HasShape b' → p'.isClear = true →
      StepsFit b ds p 0 0 → StepsFit b' ds p' 0 0 →
      ∃ v v', solve b p ds = .ok v ∧ solve b' p' ds = .ok v' ∧ v'.solved = v.solved) ∧
    (BoardStepsFit b → BoardStepsFit b' →
      (solveBoard b').map (fun v => v.cover?.isSome) =
        (solveBoard b).map fun v => v.cover?.isSome) := by
  refine ⟨?_, ?_⟩
  · intro ds p p' hp hclear hp' hclear' hsteps hsteps'
    exact solve_of_mem_images hrows hcols hb' hp hclear hp' hclear' hsteps hsteps'
  · intro hsteps hsteps'
    rcases solveBoard_of_mem_images hrows hcols hb' hsteps hsteps' with
      ⟨f, hf, hf'⟩ | ⟨v, v', hv, hv', hsolved⟩
    · rw [hf, hf']
    · rw [hv, hv']
      show Except.ok v'.cover?.isSome = Except.ok v.cover?.isSome
      simp only [Verdict.cover?, hsolved]
      cases v.solved <;> rfl

/-- A board of two rows on its diagonal, with a set of three dominoes and with the complete one. -/
theorem solve_images_two_by_three :
    (∃ v v', solve ⟨2, 3, #[0, 1, 1, 0, 1, 2], rfl, by decide⟩
        ⟨2, 3, #[none, none, none, none, none, none], rfl, by decide⟩ [⟨1, 2⟩, ⟨1, 1⟩, ⟨0, 0⟩] = .ok v ∧
      solve ⟨3, 2, #[0, 0, 1, 1, 1, 2], rfl, by decide⟩
        ⟨3, 2, #[none, none, none, none, none, none], rfl, by decide⟩ [⟨1, 2⟩, ⟨1, 1⟩, ⟨0, 0⟩] =
        .ok v' ∧ v'.solved = v.solved) ∧
    (solveBoard ⟨3, 2, #[0, 0, 1, 1, 1, 2], rfl, by decide⟩).map (fun v => v.cover?.isSome) =
      (solveBoard ⟨2, 3, #[0, 1, 1, 0, 1, 2], rfl, by decide⟩).map fun v => v.cover?.isSome := by
  have hb' : ⟨3, 2, #[0, 0, 1, 1, 1, 2], rfl, by decide⟩ ∈
      Board.images ⟨2, 3, #[0, 1, 1, 0, 1, 2], rfl, by decide⟩ := List.mem_cons_self ..
  have h : solve ⟨2, 3, #[0, 1, 1, 0, 1, 2], rfl, by decide⟩
      ⟨2, 3, #[none, none, none, none, none, none], rfl, by decide⟩ [⟨1, 2⟩, ⟨1, 1⟩, ⟨0, 0⟩] =
      .ok ⟨true, ⟨2, 3, #[some 2, some 1, some 1, some 2, some 0, some 0], rfl, by decide⟩, 3, 9, 0⟩ :=
    by cbv
  have h' : solve ⟨3, 2, #[0, 0, 1, 1, 1, 2], rfl, by decide⟩
      ⟨3, 2, #[none, none, none, none, none, none], rfl, by decide⟩ [⟨1, 2⟩, ⟨1, 1⟩, ⟨0, 0⟩] =
      .ok ⟨true, ⟨3, 2, #[some 2, some 2, some 1, some 1, some 0, some 0], rfl, by decide⟩, 3, 10, 0⟩ :=
    by cbv
  have hclear : Placement.isClear ⟨2, 3, #[none, none, none, none, none, none], rfl, by decide⟩ :=
    Placement.isClear_forBoard (b := ⟨2, 3, #[0, 1, 1, 0, 1, 2], rfl, by decide⟩) rfl
  have hclear' : Placement.isClear ⟨3, 2, #[none, none, none, none, none, none], rfl, by decide⟩ :=
    Placement.isClear_forBoard (b := ⟨3, 2, #[0, 0, 1, 1, 1, 2], rfl, by decide⟩) rfl
  have hb : solveBoard ⟨2, 3, #[0, 1, 1, 0, 1, 2], rfl, by decide⟩ =
      .ok ⟨true, ⟨2, 3, #[some 0, some 3, some 3, some 0, some 4, some 4], rfl, by decide⟩, 6, 9, 0⟩ :=
    by cbv
  have hbt : solveBoard ⟨3, 2, #[0, 0, 1, 1, 1, 2], rfl, by decide⟩ =
      .ok ⟨true, ⟨3, 2, #[some 0, some 0, some 3, some 3, some 4, some 4], rfl, by decide⟩, 6, 10, 0⟩ :=
    by cbv
  exact ⟨(solve_images (by decide) (by decide) hb').1 _ _ _ ⟨rfl, rfl⟩ hclear ⟨rfl, rfl⟩ hclear'
      (stepsFit_of_solveFrom h) (stepsFit_of_solveFrom h'),
    (solve_images (by decide) (by decide) hb').2 (boardStepsFit_of_solveBoard hb)
      (boardStepsFit_of_solveBoard hbt)⟩

end Search
end DominoTiling
