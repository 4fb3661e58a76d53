import DominoTiling.Proofs.Arrangements
import DominoTiling.Proofs.BoardText
import DominoTiling.Proofs.Layout
import DominoTiling.Proofs.Survey

/-!
# Generated boards

What is laid out, shuffled or arranged, is some of the dominoes of the complete set, each at most
once. So the pairs of cells they were laid on are a `Pairing` of the board, and the board is solved
with the complete set for its own largest pip count, also where that is a smaller set than the one it
was laid out from. Its text reads back, since its pips are below the longer side of the board.
-/

namespace DominoTiling.Generator
variable {rows cols : Nat} {b : Board} {ds : List Domino}

/-- The board is read back from its text, and solving it finds an exact cover with the complete set
for its largest pip count, if a word can count the steps. -/
def Survives (b : Board) : Prop :=
  Board.parse b.text = .ok b ∧
    ∃ p, Placement.forBoard b = .ok p ∧
      (Search.StepsFit b (Domino.upTo b.maxPips) p 0 0 →
        ∃ v q, Search.solveBoard b = .ok v ∧ v.cover? = some q ∧
          ExactCover b (Domino.upTo b.maxPips) q)

/-- A board of this size can be made, and there is room for it, for a placement on it and for the set
it is laid out from. -/
structure Accepted (rows cols : Nat) : Prop where
  dimensions : checkDimensions rows cols = .ok ()
  pips : max rows cols < 2 ^ 32
  set_bytes : 8 * (Domino.upTo (max rows cols - 1)).length < 2 ^ 63
  cell_bytes : 16 * (rows * cols) < 2 ^ 63

theorem Accepted.rows_pos (h : Accepted rows cols) : 1 ≤ rows :=
  (checkDimensions_eq_ok_iff.1 h.dimensions).1

theorem Accepted.cols_pos (h : Accepted rows cols) : 1 ≤ cols :=
  (checkDimensions_eq_ok_iff.1 h.dimensions).2.1

theorem Accepted.cols_even (h : Accepted rows cols) : cols % 2 = 0 :=
  (checkDimensions_eq_ok_iff.1 h.dimensions).2.2.2

/-! ### The set for a size -/

theorem setFor_of_dimensions (h : checkDimensions rows cols = .ok ()) (hpips : max rows cols ≤ 2 ^ 32) :
    setFor rows cols = liftM (Domino.completeSet (max rows cols - 1)) := by
  obtain ⟨hrows, hcols, -, -⟩ := checkDimensions_eq_ok_iff.1 h
  rw [setFor, h, maxPipsFor_eq_ok_iff.2 ⟨hrows, hcols, hpips, rfl⟩]
  rfl

theorem setFor_eq (h : Accepted rows cols) :
    setFor rows cols = .ok (Domino.upTo (max rows cols - 1)) := by
  have hpips := h.pips
  rw [setFor_of_dimensions h.dimensions (Nat.le_of_lt hpips),
    Domino.completeSet_of_lt (by omega) h.set_bytes]
  rfl

/-- The set is large enough for the board. -/
theorem needed_le (rows cols : Nat) :
    rows * cols / 2 ≤ (Domino.upTo (max rows cols - 1)).length := by
  rcases Nat.eq_zero_or_pos rows with hrows | hrows
  · rw [hrows, Nat.zero_mul]
    exact Nat.zero_le _
  · have hside : max rows cols - 1 + 1 = max rows cols := by omega
    have hcells : rows * cols ≤ max rows cols * max rows cols :=
      Nat.mul_le_mul (Nat.le_max_left ..) (Nat.le_max_right ..)
    rw [Domino.length_upTo, hside, show max rows cols - 1 + 2 = max rows cols + 1 by omega,
      Nat.mul_succ]
    omega

/-! ### Boards laid out from the set -/

/-- In an even number of columns no side of a domino is cut off. -/
theorem mul_half (heven : cols % 2 = 0) : rows * ((cols + 1) / 2) = rows * cols / 2 := by
  obtain ⟨half, rfl⟩ := Nat.dvd_of_mod_eq_zero heven
  rw [Nat.mul_left_comm, Nat.mul_div_cancel_left _ (by decide),
    show (2 * half + 1) / 2 = half by omega]

theorem exists_board_of_length (h : Accepted rows cols) (hds : rows * cols / 2 ≤ ds.length) :
    ∃ b, Layout.board rows cols ds = .ok b := by
  have hcells := h.cell_bytes
  exact Layout.exists_board (by omega) ((mul_half h.cols_even).symm ▸ hds)

theorem nodup_sides_of_subperm {n : Nat} (h : ds.Subperm (Domino.upTo n)) :
    (ds.map Domino.sides).Nodup := by
  obtain ⟨es, hperm, hsub⟩ := h
  exact (hperm.map _).nodup_iff.1 ((hsub.map _).nodup (Domino.nodup_sides_upTo n))

theorem maxPips_le {n : Nat} (h : Layout.board rows cols ds = .ok b) (heven : cols % 2 = 0)
    (hds : ∀ d ∈ ds, d.side1 ≤ n ∧ d.side2 ≤ n) : b.maxPips ≤ n := by
  obtain ⟨half, rfl⟩ := Nat.dvd_of_mod_eq_zero heven
  obtain ⟨-, -, -, hcells⟩ := Layout.of_board h
  rw [Board.maxPips_le_iff_cells, hcells, Layout.boardCells_even]
  intro m hm
  obtain ⟨d, hd, hm⟩ := List.mem_flatMap.1 hm
  obtain ⟨h1, h2⟩ := hds d (List.mem_of_mem_take hd)
  rcases List.mem_cons.1 hm with rfl | hm
  · exact h1
  · rwa [List.mem_singleton.1 hm]

/-- Every board laid out from different dominoes of the set survives. -/
theorem survives_of_board (h : Accepted rows cols)
    (hds : ds.Subperm (Domino.upTo (max rows cols - 1)))
    (hb : Layout.board rows cols ds = .ok b) : Survives b := by
  have heven := h.cols_even
  have hpips := h.pips
  have hcells := h.cell_bytes
  obtain ⟨-, hbrows, hbcols, -⟩ := Layout.of_board hb
  have hmax : b.maxPips ≤ max rows cols - 1 := maxPips_le hb heven fun d hd => by
    obtain ⟨h12, h2⟩ := Domino.mem_upTo.1 (hds.subset hd)
    omega
  refine ⟨Board.parse_text (hbrows ▸ h.rows_pos) (hbcols ▸ h.cols_pos) (by rw [hbrows, hbcols]; omega)
    fun n hn => ?_, ?_⟩
  · have hle := Board.maxPips_le_iff_cells.1 hmax n (Array.mem_toList_iff.2 hn)
    omega
  · obtain ⟨p, hp⟩ := Placement.exists_forBoard (b := b) (by rw [hbrows, hbcols]; exact hcells)
    refine ⟨p, hp, fun hsteps => ?_⟩
    have hset : 8 * (Domino.upTo b.maxPips).length < 2 ^ 63 :=
      Nat.lt_of_le_of_lt (Nat.mul_le_mul_left 8 (Domino.length_upTo_le hmax)) h.set_bytes
    have hsolve := Search.solveBoard_eq (Domino.completeSet_of_lt (by omega) hset) hp
    obtain ⟨v, hv⟩ : ∃ v, Search.solve b p (Domino.upTo b.maxPips) = .ok v :=
      Search.exists_solveFrom (hbcols ▸ h.cols_pos) (Placement.at?_forBoard hp).1 (.inl (by decide))
        hsteps
    obtain ⟨half, rfl⟩ := Nat.dvd_of_mod_eq_zero heven
    have hpairing := (Layout.boardTiling hb).pairing (nodup_sides_of_subperm hds)
    have hsolved := (Search.solved_iff_boardTiling hp hv).2
      (hpairing.exists_boardTiling (Nat.le_refl _))
    exact ⟨v, v.placement, hsolve.trans hv, by rw [Search.Verdict.cover?, hsolved]; rfl,
      Search.exactCover_of_solve hp hv hsolved⟩

/-! ### Enumeration -/

theorem enumerate_of_setFor (hset : setFor rows cols = .ok ds) (hneeded : rows * cols / 2 ≤ ds.length) :
    enumerate rows cols = (survey rows cols (arrangements (rows * cols / 2) ds) .start >>=
      fun s => (liftM (word s.walked) : Except Failure Nat) >>= fun _ => .ok s) := by
  rw [enumerate, hset]
  show (if _ then _ else _) = _
  rw [if_neg (Nat.not_lt.2 hneeded)]
  rfl

theorem enumerate_eq (h : Accepted rows cols) :
    enumerate rows cols =
      (survey rows cols (arrangements (rows * cols / 2) (Domino.upTo (max rows cols - 1))) .start >>=
        fun s => (liftM (word s.walked) : Except Failure Nat) >>= fun _ => .ok s) :=
  enumerate_of_setFor (setFor_eq h) (needed_le rows cols)

theorem survey_of_enumerate {s : Survey} (h : Accepted rows cols) (hs : enumerate rows cols = .ok s) :
    survey rows cols (arrangements (rows * cols / 2) (Domino.upTo (max rows cols - 1))) .start =
      .ok s := by
  rw [enumerate_eq h] at hs
  obtain ⟨s', hs', hs⟩ := bind_eq_ok_iff.1 hs
  obtain ⟨_, -, hs⟩ := bind_eq_ok_iff.1 hs
  obtain rfl := Except.ok.inj hs
  exact hs'

theorem exists_enumerate (h : Accepted rows cols)
    (hwalk : (arrangements (rows * cols / 2) (Domino.upTo (max rows cols - 1))).length < 2 ^ 64) :
    ∃ s, enumerate rows cols = .ok s := by
  obtain ⟨s, hs, hwalked⟩ := exists_survey (s := .start) fun ds hds =>
    exists_board_of_length h (Nat.le_of_eq (length_of_mem_arrangements hds).symm)
  rw [show Survey.start.walked = 0 from rfl, Nat.zero_add] at hwalked
  refine ⟨s, ?_⟩
  rw [enumerate_eq h, hs]
  show ((liftM (word s.walked) : Except Failure Nat) >>= fun _ => .ok s) = _
  rw [word_of_lt (hwalked ▸ hwalk)]
  rfl

/-! ### Synthesis -/

theorem synthesize_of_setFor (hset : setFor rows cols = .ok ds) (source : WordSource) :
    synthesize rows cols source = ((liftM (source.shuffle ds) : Except Failure _) >>= fun r =>
      Layout.board rows cols r.1 >>= fun b => .ok (b, r.2)) := by
  rw [synthesize, hset]
  rfl

theorem synthesize_eq (h : Accepted rows cols) (source : WordSource) :
    synthesize rows cols source =
      ((liftM (source.shuffle (Domino.upTo (max rows cols - 1))) : Except Failure _) >>= fun r =>
        Layout.board rows cols r.1 >>= fun b => .ok (b, r.2)) :=
  synthesize_of_setFor (setFor_eq h) source

theorem exists_synthesize (h : Accepted rows cols) {source source' : WordSource} {items : List Domino}
    (hshuffle : source.shuffle (Domino.upTo (max rows cols - 1)) = .ok (items, source')) :
    ∃ b, synthesize rows cols source = .ok (b, source') := by
  have hlength := (WordSource.perm_of_shuffle hshuffle).length_eq
  obtain ⟨b, hb⟩ := exists_board_of_length h (hlength ▸ needed_le rows cols)
  refine ⟨b, ?_⟩
  rw [synthesize_eq h, hshuffle]
  show (Layout.board rows cols items >>= _) = _
  rw [hb]
  rfl

theorem board_of_synthesize (h : Accepted rows cols) {source source' : WordSource}
    (hb : synthesize rows cols source = .ok (b, source')) :
    ∃ items, items.Perm (Domino.upTo (max rows cols - 1)) ∧
      Layout.board rows cols items = .ok b := by
  rw [synthesize_eq h] at hb
  obtain ⟨⟨items, source''⟩, hshuffle, hb⟩ := bind_eq_ok_iff.1 hb
  obtain ⟨b', hb', hb⟩ := bind_eq_ok_iff.1 hb
  obtain ⟨rfl, -⟩ := Prod.mk.inj (Except.ok.inj hb)
  exact ⟨items, WordSource.perm_of_shuffle (liftM_eq_ok_iff.1 hshuffle), hb'⟩

/-- A size that is accepted gets a board whenever the shuffle ends, and all its boards if a word can
count the arrangements. Every one of these boards is read back from its text and solved, as is every
board laid out from the set in any order, whatever the order comes from. -/
theorem generated_survive (h : Accepted rows cols) :
    (∀ source b source', synthesize rows cols source = .ok (b, source') → Survives b) ∧
    (∀ items b, items.Perm (Domino.upTo (max rows cols - 1)) →
      Layout.board rows cols items = .ok b → Survives b) ∧
    (∀ source items source',
      source.shuffle (Domino.upTo (max rows cols - 1)) = .ok (items, source') →
        ∃ b, synthesize rows cols source = .ok (b, source')) ∧
    (∀ s, enumerate rows cols = .ok s → ∀ b ∈ s.boards, Survives b) ∧
    ((arrangements (rows * cols / 2) (Domino.upTo (max rows cols - 1))).length < 2 ^ 64 →
      ∃ s, enumerate rows cols = .ok s) := by
  refine ⟨fun source b source' hb => ?_, fun items b hperm => survives_of_board h hperm.subperm,
    fun source items source' => exists_synthesize h, fun s hs b hb => ?_, exists_enumerate h⟩
  · obtain ⟨items, hperm, hlaid⟩ := board_of_synthesize h hb
    exact survives_of_board h hperm.subperm hlaid
  · rcases mem_boards_of_survey (survey_of_enumerate h hs) hb with hstart | ⟨ds, hds, hlaid⟩
    · exact absurd hstart (Array.not_mem_empty b)
    · exact survives_of_board h (subperm_of_mem_arrangements hds) hlaid

/-- A board laid out from three dominoes and solved with the only one that its pips allow, and one
that is listed. -/
theorem generated_survive_one_by_two :
    Accepted 1 2 ∧
    (∃ b source', synthesize 1 2 ⟨[2863311531, 2147483648], 0⟩ = .ok (b, source') ∧
      b.maxPips = 0 ∧ Survives b) ∧
    (∃ s b, enumerate 1 2 = .ok s ∧ b ∈ s.boards ∧ b = ⟨1, 2, #[0, 1], rfl, by decide⟩ ∧
      Survives b) := by
  have h : Accepted 1 2 := ⟨rfl, by decide, by decide, by decide⟩
  have hsynthesize : synthesize 1 2 ⟨[2863311531, 2147483648], 0⟩ =
      .ok (⟨1, 2, #[0, 0], rfl, by decide⟩, ⟨[], 0⟩) := by
    rfl
  obtain ⟨hmade, -, -, hlisted, hlist⟩ := generated_survive h
  obtain ⟨s, hs⟩ := hlist (by decide)
  have hlaid : Layout.board 1 2 [⟨0, 1⟩] = .ok ⟨1, 2, #[0, 1], rfl, by decide⟩ := rfl
  obtain ⟨b, hb, htext⟩ := exists_met (survey_of_enumerate h hs)
    (show [⟨0, 1⟩] ∈ arrangements (1 * 2 / 2) (Domino.upTo (max 1 2 - 1)) by decide) hlaid
  have hsurvives := hlisted s hs b hb
  -- no other board has its text
  have hread : Board.parse b.text = .ok ⟨1, 2, #[0, 1], rfl, by decide⟩ := by
    rw [htext]
    rfl
  exact ⟨h, ⟨_, _, hsynthesize, rfl, hmade _ _ _ hsynthesize⟩, s, b, hs, hb,
    Except.ok.inj (hsurvives.1.symm.trans hread), hsurvives⟩

end DominoTiling.Generator
