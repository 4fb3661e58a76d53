import DominoTiling.Proofs.ColumnPairs
import DominoTiling.Proofs.Generated

/-!
# The list of all boards

A board is `Obtainable` if its column pairs are different dominoes of the set. These are the boards
that different dominoes of the set can be laid out to (`obtainable_of_board`,
`Obtainable.board_pairs_append`), and no two of them have the same text (`Obtainable.text_inj`).
Arrangements of just the dominoes that a board takes come in ascending order, and so do the boards
they are laid out to. No text is met twice, so the survey of these arrangements keeps every board.
-/

namespace DominoTiling.Generator
variable {rows cols : Nat} {b b' : Board} {ds : List Domino} {s : Survey}

/-! ### Sizes whose boards can be listed -/

/-- The number of ways to line up as many dominoes as a board takes, out of the set for its size. -/
def walkLength (rows cols : Nat) : Nat :=
  (max rows cols * (max rows cols + 1) / 2).factorial /
    (max rows cols * (max rows cols + 1) / 2 - rows * cols / 2).factorial

/-- A size that column pairs fill, with pips that fit and few enough arrangements to be counted. -/
structure Listable (rows cols : Nat) : Prop where
  rows_pos : 1 ≤ rows
  cols_pos : 1 ≤ cols
  cols_even : cols % 2 = 0
  pips : max rows cols < 2 ^ 32
  walk : walkLength rows cols < 2 ^ 64

theorem length_set (hrows : 1 ≤ rows) :
    (Domino.upTo (max rows cols - 1)).length = max rows cols * (max rows cols + 1) / 2 := by
  have hside : 1 ≤ max rows cols := Nat.le_trans hrows (Nat.le_max_left ..)
  rw [Domino.length_upTo, Nat.sub_add_cancel hside,
    show max rows cols - 1 + 2 = max rows cols + 1 by omega]

theorem walkLength_eq (hrows : 1 ≤ rows) :
    walkLength rows cols =
      (arrangements (rows * cols / 2) (Domino.upTo (max rows cols - 1))).length := by
  rw [length_arrangements, Nat.descFactorial_eq_div (needed_le ..), length_set hrows, walkLength]

/-- Two of many items can already be lined up in more ways than a word counts. -/
theorem le_of_descFactorial_lt {n k : Nat} (hk : 2 ≤ k) (hkn : k ≤ n)
    (h : n.descFactorial k < 2 ^ 64) : n ≤ 2 ^ 33 := by
  have hpos : 1 ≤ (n - 2).descFactorial (k - 2) :=
    Nat.one_le_iff_ne_zero.2 fun h0 => by rw [Nat.descFactorial_eq_zero_iff_lt] at h0; omega
  have htwo : (n - 1) * n < 2 ^ 64 := by
    calc (n - 1) * n = n.descFactorial 2 := by simp [Nat.descFactorial_succ]
      _ ≤ (n - 2).descFactorial (k - 2) * n.descFactorial 2 := Nat.le_mul_of_pos_left _ hpos
      _ = n.descFactorial k := Nat.descFactorial_mul_descFactorial hk
      _ < 2 ^ 64 := h
  by_contra hlarge
  have hge : 2 ^ 33 * 2 ^ 33 ≤ (n - 1) * n := Nat.mul_le_mul (by omega) (by omega)
  omega

/-- So few arrangements leave room for the set and for the board. -/
theorem Listable.accepted (h : Listable rows cols) : Accepted rows cols := by
  obtain ⟨hrows, hcols, heven, hpips, hwalk⟩ := h
  have hneeded : rows * cols / 2 ≤ (Domino.upTo (max rows cols - 1)).length := needed_le ..
  rw [walkLength_eq hrows, length_arrangements] at hwalk
  have hcells : rows * cols < 2 ^ 32 * 2 ^ 32 := Nat.mul_lt_mul'' (by omega) (by omega)
  -- A board of a single domino does not bound the set by its arrangements, but by its sides.
  have hsize : (Domino.upTo (max rows cols - 1)).length ≤ 2 ^ 33 := by
    rcases Nat.lt_or_ge (rows * cols / 2) 2 with hfew | hmany
    · have hrows3 : rows * 1 ≤ rows * cols := Nat.mul_le_mul_left rows hcols
      have hcols3 : 1 * cols ≤ rows * cols := Nat.mul_le_mul_right cols hrows
      have hset : max rows cols * (max rows cols + 1) ≤ 3 * 4 :=
        Nat.mul_le_mul (by omega) (by omega)
      rw [length_set hrows]
      omega
    · exact le_of_descFactorial_lt hmany hneeded hwalk
  exact ⟨checkDimensions_eq_ok_iff.2 ⟨hrows, hcols, by omega, heven⟩, hpips, by omega, by omega⟩

/-! ### Obtainable boards -/

/-- A board of this size whose column pairs are different dominoes of the set for the size, each with
its smaller side on the left. -/
structure Obtainable (rows cols : Nat) (b : Board) : Prop where
  rows_eq : b.rows = rows
  cols_eq : b.cols = cols
  pairs_nodup : (Layout.pairs b).Nodup
  pairs_le : ∀ d ∈ Layout.pairs b, d.side1 ≤ d.side2 ∧ d.side2 ≤ max rows cols - 1

theorem obtainable_of_board (heven : cols % 2 = 0)
    (hds : ds.Subperm (Domino.upTo (max rows cols - 1))) (hb : Layout.board rows cols ds = .ok b) :
    Obtainable rows cols b := by
  obtain ⟨-, hrows, hcols, -⟩ := Layout.of_board hb
  have hsub : (ds.take (rows * cols / 2)).Subperm (Domino.upTo (max rows cols - 1)) :=
    (List.take_sublist ..).subperm.trans hds
  rw [← Layout.pairs_of_board heven hb] at hsub
  refine ⟨hrows, hcols, ?_, fun d hd => Domino.mem_upTo.1 (hsub.subset hd)⟩
  obtain ⟨es, hperm, hes⟩ := hsub
  exact hperm.nodup_iff.1 (hes.nodup (Domino.nodup_upTo _))

namespace Obtainable

theorem pairs_subperm (h : Obtainable rows cols b) :
    (Layout.pairs b).Subperm (Domino.upTo (max rows cols - 1)) :=
  List.subperm_of_subset h.pairs_nodup fun _ hd => Domino.mem_upTo.2 (h.pairs_le _ hd)

/-- The dominoes of an obtainable board begin some order of the whole set. -/
theorem exists_perm (h : Obtainable rows cols b) :
    ∃ more, (Layout.pairs b ++ more).Perm (Domino.upTo (max rows cols - 1)) := by
  obtain ⟨es, hperm, hsub⟩ := h.pairs_subperm
  obtain ⟨more, hmore⟩ := hsub.exists_perm_append
  exact ⟨more, (hperm.symm.append_right more).trans hmore.symm⟩

theorem sidesOf_pairs (h : Obtainable rows cols b) (heven : cols % 2 = 0) :
    Layout.sidesOf (Layout.pairs b) = b.cells.toList :=
  Layout.sidesOf_pairs (h.cols_eq ▸ heven)

theorem length_pairs (h : Obtainable rows cols b) (heven : cols % 2 = 0) :
    (Layout.pairs b).length = rows * cols / 2 := by
  have hcells : b.cells.toList.length = rows * cols := by
    rw [Array.length_toList, b.size_cells, h.rows_eq, h.cols_eq]
  rw [← h.sidesOf_pairs heven, Layout.length_sidesOf] at hcells
  omega

/-- An obtainable board is laid out from any list of dominoes that begins with its column pairs. -/
theorem board_pairs_append (h : Obtainable rows cols b) (hsize : Accepted rows cols)
    (more : List Domino) : Layout.board rows cols (Layout.pairs b ++ more) = .ok b := by
  have heven := hsize.cols_even
  have hlength := h.length_pairs heven
  have henough : rows * cols / 2 ≤ (Layout.pairs b ++ more).length := by
    rw [List.length_append]
    omega
  obtain ⟨b', hb'⟩ := exists_board_of_length hsize henough
  have hcells : b.cells.toList = b'.cells.toList := by
    rw [Layout.cells_of_board heven hb', ← hlength, List.take_left, h.sidesOf_pairs heven]
  rw [hb', Layout.board_unique hb' h.rows_eq h.cols_eq hcells]

theorem parse_text (h : Obtainable rows cols b) (hsize : Accepted rows cols) :
    Board.parse b.text = .ok b := by
  have hb := h.board_pairs_append hsize []
  rw [List.append_nil] at hb
  exact (survives_of_board hsize h.pairs_subperm hb).1

theorem text_inj (h : Obtainable rows cols b) (h' : Obtainable rows cols b')
    (hsize : Accepted rows cols) (htext : b.text = b'.text) : b = b' := by
  have hread := h.parse_text hsize
  rw [htext, h'.parse_text hsize] at hread
  exact (Except.ok.inj hread).symm

end Obtainable

/-! ### All boards -/

section
variable {laid : List Board}

theorem mem_laid_iff (hsize : Accepted rows cols)
    (h : LaidOut rows cols
      (arrangements (rows * cols / 2) (Domino.upTo (max rows cols - 1))) laid) :
    b ∈ laid ↔ Obtainable rows cols b := by
  constructor
  · intro hb
    obtain ⟨ds, hds, hlaid⟩ := h.exists_board hb
    exact obtainable_of_board hsize.cols_even (mem_arrangements_iff.1 hds).2 hlaid
  · intro hb
    have hlaid := hb.board_pairs_append hsize []
    rw [List.append_nil] at hlaid
    have harranged := mem_arrangements_iff.2 ⟨hb.length_pairs hsize.cols_even, hb.pairs_subperm⟩
    exact h.mem harranged hlaid

theorem mem_boards_iff (hsize : Accepted rows cols)
    (h : LaidOut rows cols
      (arrangements (rows * cols / 2) (Domino.upTo (max rows cols - 1))) s.boards.toList) :
    b ∈ s.boards ↔ Obtainable rows cols b := by
  rw [← Array.mem_toList_iff]
  exact mem_laid_iff hsize h

/-- Different arrangements of as many dominoes as a board takes are seen on the board. -/
theorem ascending_laid (heven : cols % 2 = 0)
    (h : LaidOut rows cols
      (arrangements (rows * cols / 2) (Domino.upTo (max rows cols - 1))) laid) :
    Ascending laid := by
  have hsorted : (Domino.upTo (max rows cols - 1)).Pairwise Domino.Before := Domino.pairwise_upTo _
  refine h.pairwise (pairwise_arrangements _ hsorted) fun ds hds es hes hlex b b' hb hb' => ?_
  have hlength := length_of_mem_arrangements hds
  have hlength' := length_of_mem_arrangements hes
  rw [Layout.cells_of_board heven hb, Layout.cells_of_board heven hb',
    List.take_of_length_le (Nat.le_of_eq hlength), List.take_of_length_le (Nat.le_of_eq hlength')]
  exact Layout.sidesOf_lt hlex

/-- The boards listed are those that all arrangements are laid out to, one by one. -/
theorem exists_enumerate_laid (h : Listable rows cols) :
    ∃ s, enumerate rows cols = .ok s ∧
      LaidOut rows cols (arrangements (rows * cols / 2) (Domino.upTo (max rows cols - 1)))
        s.boards.toList ∧
      s.walked = s.boards.size := by
  have hsize := h.accepted
  have hwalk := h.walk
  rw [walkLength_eq h.rows_pos] at hwalk
  obtain ⟨s, hs⟩ := exists_enumerate hsize hwalk
  have hsurvey := survey_of_enumerate hsize hs
  obtain ⟨laid, hlaid, hboards⟩ := boards_of_survey hsurvey Survey.knows_start
  -- In ascending order the boards are different, and different boards have different texts.
  have htexts : (laid.map Board.text).Nodup := by
    refine (ascending_laid h.cols_even hlaid).nodup.map_on fun b hb b' hb' htext => ?_
    exact ((mem_laid_iff hsize hlaid).1 hb).text_inj ((mem_laid_iff hsize hlaid).1 hb') hsize htext
  have hall : s.boards.toList = laid := by
    rw [hboards, firstSeen_of_nodup htexts fun _ _ => List.not_mem_nil]
    rfl
  refine ⟨s, hs, hall.symm ▸ hlaid, ?_⟩
  obtain ⟨s', hs', hwalked⟩ := exists_survey (s := .start) fun ds hds =>
    exists_board_of_length hsize (Nat.le_of_eq (length_of_mem_arrangements hds).symm)
  obtain rfl := Except.ok.inj (hsurvey.symm.trans hs')
  rw [hwalked, hlaid.length_eq, ← hall, Array.length_toList]
  exact Nat.zero_add _

end

/-- Every obtainable board is listed once, in ascending order, and there are as many of them as
arrangements were walked. -/
theorem enumerate_lists_obtainable (h : Listable rows cols) :
    ∃ s, enumerate rows cols = .ok s ∧ (∀ b, b ∈ s.boards ↔ Obtainable rows cols b) ∧
      s.boards.toList.Nodup ∧ Ascending s.boards.toList ∧
      s.boards.size = walkLength rows cols ∧ s.walked = s.boards.size := by
  obtain ⟨s, hs, hlaid, hwalked⟩ := exists_enumerate_laid h
  have hascending := ascending_laid h.cols_even hlaid
  refine ⟨s, hs, fun b => mem_boards_iff h.accepted hlaid, hascending.nodup, hascending, ?_, hwalked⟩
  rw [← Array.length_toList, ← hlaid.length_eq, walkLength_eq h.rows_pos]

/-- A board of two of the three dominoes with pips 0 and 1, one of six. -/
theorem enumerate_lists_obtainable_two_by_two :
    Listable 2 2 ∧ ∃ s, enumerate 2 2 = .ok s ∧ s.boards.size = 6 ∧ s.walked = 6 ∧
      ⟨2, 2, #[0, 1, 0, 0], rfl, by decide⟩ ∈ s.boards := by
  have h : Listable 2 2 := ⟨by decide, by decide, by decide, by decide, by decide⟩
  obtain ⟨s, hs, hmem, -, -, hsize, hwalked⟩ := enumerate_lists_obtainable h
  refine ⟨h, s, hs, hsize, hwalked.trans hsize, (hmem _).2 ⟨rfl, rfl, ?_, ?_⟩⟩
  · decide
  · decide

end DominoTiling.Generator
