import DominoTiling.Drawing
import DominoTiling.Proofs.Pairing

/-!
# Drawings are read back

A drawing shows a `Plan`: the pips of a board and where walls stand. The text of a plan says where
each of its parts ends, the digits of a cell with the blank behind them and the rest with a fixed
number of characters, so two plans with one text are the same (`Plan.same_of_text_eq`).

Where every domino lies on two adjacent cells, two neighbours lie under one domino if and only if no
wall stands between them (`open_planOf_iff`). The drawing of a solution therefore gives back the board
and the pairs of cells, but not the positions in the list of dominoes (`drawing_shows_pairs`).
-/

namespace DominoTiling

theorem Grid.ext_at? {α : Type} {g h : Grid α} (hr : g.rows = h.rows) (hc : g.cols = h.cols)
    (hcells : ∀ c, g.at? c = h.at? c) : g = h := by
  have hsize : g.cells.size = h.cells.size := by rw [g.size_cells, h.size_cells, hr, hc]
  refine ext_cells hr hc ?_
  intro k
  by_cases hk : k < g.cells.size
  · rw [← at?_div_mod hk, ← at?_div_mod (hsize ▸ hk), hcells, hc]
  · rw [Array.getElem?_eq_none (Nat.le_of_not_lt hk),
      Array.getElem?_eq_none (hsize ▸ Nat.le_of_not_lt hk)]

/-! ### Cells in pairs -/

namespace Placement

/-- Every cell is covered, and what covers it is on two adjacent cells and on no other one. -/
structure InPairs (p : Placement) (b : Board) : Prop where
  shape : p.HasShape b
  full : ∀ c : Nat × Nat, c.1 < b.rows → c.2 < b.cols → ∃ i, p.at? c = some (some i)
  pair : ∀ c i, p.at? c = some (some i) →
    ∃ u v, adjacent u v = true ∧ ∀ w, p.at? w = some (some i) ↔ w = u ∨ w = v

/-- Two cells under one domino. -/
def Joined (p : Placement) (u v : Nat × Nat) : Prop :=
  u ≠ v ∧ ∃ i, p.at? u = some (some i) ∧ p.at? v = some (some i)

theorem exists_mate_of_adjacent {u v : Nat × Nat} (h : adjacent u v = true) :
    ∃ o : Orientation, v = o.mate u ∨ u = o.mate v := by
  rw [adjacent_iff] at h
  rcases h with ⟨hrow, hcol⟩ | ⟨hcol, hrow⟩
  · refine ⟨.horizontal, ?_⟩
    simp only [Orientation.mate, Prod.ext_iff]
    omega
  · refine ⟨.vertical, ?_⟩
    simp only [Orientation.mate, Prod.ext_iff]
    omega

namespace InPairs
variable {b : Board} {p : Placement} {u v c : Nat × Nat}

theorem adjacent_of_joined (h : p.InPairs b) (huv : p.Joined u v) : adjacent u v = true := by
  obtain ⟨hne, i, hu, hv⟩ := huv
  obtain ⟨u', v', hadj, hcells⟩ := h.pair u i hu
  rcases (hcells u).1 hu with rfl | rfl
  · rcases (hcells v).1 hv with rfl | rfl
    · exact absurd rfl hne
    · exact hadj
  · rcases (hcells v).1 hv with rfl | rfl
    · exact adjacent_comm.1 hadj
    · exact absurd rfl hne

theorem existsUnique_joined (h : p.InPairs b) (hx : c.1 < b.rows) (hy : c.2 < b.cols) :
    ∃! v, p.Joined c v := by
  obtain ⟨i, hc⟩ := h.full c hx hy
  obtain ⟨u, v, hadj, hcells⟩ := h.pair c i hc
  have hne := ne_of_adjacent hadj
  have hjoined : ∀ w, p.Joined c w ↔ c ≠ w ∧ (w = u ∨ w = v) := by
    intro w
    rw [← hcells]
    refine and_congr_right fun _ => ⟨?_, fun hw => ⟨i, hc, hw⟩⟩
    rintro ⟨j, hj, hw⟩
    rwa [index_inj hc hj]
  rcases (hcells c).1 hc with rfl | rfl
  · refine ⟨v, (hjoined v).2 ⟨hne, .inr rfl⟩, ?_⟩
    intro w hw
    obtain ⟨hcw, hw⟩ := (hjoined w).1 hw
    exact hw.resolve_left (Ne.symm hcw)
  · refine ⟨u, (hjoined u).2 ⟨Ne.symm hne, .inl rfl⟩, ?_⟩
    intro w hw
    obtain ⟨hcw, hw⟩ := (hjoined w).1 hw
    exact hw.resolve_right (Ne.symm hcw)

end InPairs
end Placement

theorem ExactCover.inPairs {b : Board} {ds : List Domino} {p : Placement} (h : ExactCover b ds p) :
    p.InPairs b := by
  refine ⟨h.shape, h.full, ?_⟩
  intro c i hc
  obtain ⟨u, v, hlies, hcells⟩ := h.pair c i hc
  exact ⟨u, v, hlies.adjacent, hcells⟩

/-- The domino under two cells that are joined. -/
theorem ExactCover.exists_domino {b : Board} {ds : List Domino} {p : Placement} {u v : Nat × Nat}
    (h : ExactCover b ds p) (huv : p.Joined u v) :
    ∃ i, p.at? u = some (some i) ∧ p.at? v = some (some i) ∧ (Tile.mk i u v).Lies b ds := by
  obtain ⟨hne, i, hu, hv⟩ := huv
  obtain ⟨u', v', hlies, hcells⟩ := h.pair u i hu
  refine ⟨i, hu, hv, ?_⟩
  rcases (hcells u).1 hu with rfl | rfl
  · rcases (hcells v).1 hv with rfl | rfl
    · exact absurd rfl hne
    · exact hlies
  · rcases (hcells v).1 hv with rfl | rfl
    · exact hlies.flip
    · exact absurd rfl hne

namespace Drawing

/-! ### Plans -/

/-- What a drawing shows: pips in cells, and the walls to the left of cells and below them. -/
structure Plan where
  rows : Nat
  cols : Nat
  pips : Nat → Nat → Nat
  wallLeft : Nat → Nat → Bool
  wallBelow : Nat → Nat → Bool

def cellText (wall : Bool) (pips : Nat) : List Char :=
  (if wall then '|' else ' ') :: ' ' :: Nat.toDigits 10 pips ++ [' ']

def belowText (wall : Bool) : List Char := '+' :: List.replicate 3 (if wall then '-' else ' ')

namespace Plan

def rowText (P : Plan) (x : Nat) : List Char :=
  ((List.range P.cols).flatMap fun y => cellText (P.wallLeft x y) (P.pips x y)) ++ ['|', '\n'] ++
    ((List.range P.cols).flatMap fun y => belowText (P.wallBelow x y)) ++ ['+', '\n']

def text (P : Plan) : String :=
  String.ofList (topBorder P.cols ++ (List.range P.rows).flatMap P.rowText)

/-- The two plans have the same size and agree on every cell. -/
structure Same (P Q : Plan) : Prop where
  rows : P.rows = Q.rows
  cols : P.cols = Q.cols
  pips : ∀ x < P.rows, ∀ y < P.cols, P.pips x y = Q.pips x y
  wallLeft : ∀ x < P.rows, ∀ y < P.cols, P.wallLeft x y = Q.wallLeft x y
  wallBelow : ∀ x < P.rows, ∀ y < P.cols, P.wallBelow x y = Q.wallBelow x y

end Plan

/-! ### Texts that show where they end -/

theorem flatMap_append_inj {l : List Nat} {f g : Nat → List Char} {Q : Nat → Prop}
    {r r' : List Char} (h : ∀ y ∈ l, ∀ r r', f y ++ r = g y ++ r' → Q y ∧ r = r')
    (heq : l.flatMap f ++ r = l.flatMap g ++ r') : (∀ y ∈ l, Q y) ∧ r = r' := by
  induction l with
  | nil => exact ⟨by simp, heq⟩
  | cons y l ih =>
    simp only [List.flatMap_cons, List.append_assoc] at heq
    obtain ⟨hy, heq⟩ := h y (List.mem_cons_self ..) _ _ heq
    obtain ⟨hl, heq⟩ := ih (fun z hz => h z (List.mem_cons_of_mem _ hz)) heq
    exact ⟨List.forall_mem_cons.2 ⟨hy, hl⟩, heq⟩

theorem topBorder_append_inj {m n : Nat} {r r' : List Char}
    (h : topBorder m ++ r = topBorder n ++ r') : m = n ∧ r = r' := by
  induction m generalizing n with
  | zero =>
    cases n with
    | zero => exact ⟨rfl, by simpa [topBorder] using h⟩
    | succ n => simp [topBorder, List.replicate_succ] at h
  | succ m ih =>
    cases n with
    | zero => simp [topBorder, List.replicate_succ] at h
    | succ n =>
      have htail : topBorder m ++ r = topBorder n ++ r' := by
        simpa [topBorder, List.replicate_succ] using h
      obtain ⟨rfl, hr⟩ := ih htail
      exact ⟨rfl, hr⟩

theorem cellText_append_inj {wall wall' : Bool} {m n : Nat} {r r' : List Char}
    (h : cellText wall m ++ r = cellText wall' n ++ r') : (m = n ∧ wall = wall') ∧ r = r' := by
  simp only [cellText, List.cons_append, List.append_assoc, List.nil_append, List.cons.injEq,
    true_and] at h
  obtain ⟨hm, hr⟩ := Text.toDigits_append_inj (by decide) h.2
  refine ⟨⟨hm, ?_⟩, hr⟩
  cases wall <;> cases wall' <;> simp at h ⊢

theorem belowText_append_inj {wall wall' : Bool} {r r' : List Char}
    (h : belowText wall ++ r = belowText wall' ++ r') : wall = wall' ∧ r = r' := by
  simp only [belowText, List.replicate_succ, List.replicate_zero, List.cons_append, List.nil_append,
    List.cons.injEq, true_and] at h
  refine ⟨?_, h.2.2.2⟩
  cases wall <;> cases wall' <;> simp at h ⊢

namespace Plan
variable {P Q : Plan}

theorem rowText_append_inj (hcols : P.cols = Q.cols) {x : Nat} {r r' : List Char}
    (h : P.rowText x ++ r = Q.rowText x ++ r') :
    (∀ y < P.cols, (P.pips x y = Q.pips x y ∧ P.wallLeft x y = Q.wallLeft x y) ∧
      P.wallBelow x y = Q.wallBelow x y) ∧ r = r' := by
  simp only [rowText, ← hcols, List.append_assoc] at h
  obtain ⟨hcells, h⟩ := flatMap_append_inj (fun y _ r r' => cellText_append_inj) h
  obtain ⟨hbelow, h⟩ := flatMap_append_inj (fun y _ r r' => belowText_append_inj)
    (List.append_cancel_left h)
  refine ⟨?_, List.append_cancel_left h⟩
  intro y hy
  exact ⟨hcells y (List.mem_range.2 hy), hbelow y (List.mem_range.2 hy)⟩

theorem rowText_ne_nil (x : Nat) : P.rowText x ≠ [] := by simp [rowText]

/-- The rows of a plan are known from their texts. -/
theorem rows_eq_of_le (hcols : P.cols = Q.cols) (hle : P.rows ≤ Q.rows)
    (h : (List.range P.rows).flatMap P.rowText = (List.range Q.rows).flatMap Q.rowText) :
    P.rows = Q.rows ∧ ∀ x < P.rows, ∀ y < P.cols,
      (P.pips x y = Q.pips x y ∧ P.wallLeft x y = Q.wallLeft x y) ∧
        P.wallBelow x y = Q.wallBelow x y := by
  obtain ⟨d, hd⟩ := Nat.exists_eq_add_of_le hle
  rw [hd, List.range_add, List.flatMap_append,
    ← List.append_nil ((List.range P.rows).flatMap P.rowText)] at h
  obtain ⟨hrows, hrest⟩ := flatMap_append_inj (fun x _ r r' => rowText_append_inj hcols) h
  refine ⟨?_, fun x hx => hrows x (List.mem_range.2 hx)⟩
  cases d with
  | zero => exact hd.symm
  | succ d => simp [List.range_succ_eq_map, rowText_ne_nil] at hrest

theorem Same.symm (h : P.Same Q) : Q.Same P := by
  obtain ⟨hrows, hcols, hpips, hleft, hbelow⟩ := h
  rw [hrows, hcols] at hpips hleft hbelow
  exact ⟨hrows.symm, hcols.symm, fun x hx y hy => (hpips x hx y hy).symm,
    fun x hx y hy => (hleft x hx y hy).symm, fun x hx y hy => (hbelow x hx y hy).symm⟩

theorem same_of_text_eq (h : P.text = Q.text) : P.Same Q := by
  have hchars := String.ofList_injective h
  obtain ⟨hcols, hrows⟩ := topBorder_append_inj hchars
  rcases Nat.le_total P.rows Q.rows with hle | hle
  · obtain ⟨hrows, hcells⟩ := rows_eq_of_le hcols hle hrows
    exact ⟨hrows, hcols, fun x hx y hy => (hcells x hx y hy).1.1,
      fun x hx y hy => (hcells x hx y hy).1.2, fun x hx y hy => (hcells x hx y hy).2⟩
  · obtain ⟨hrows, hcells⟩ := rows_eq_of_le hcols.symm hle hrows.symm
    exact Same.symm ⟨hrows, hcols.symm, fun x hx y hy => (hcells x hx y hy).1.1,
      fun x hx y hy => (hcells x hx y hy).1.2, fun x hx y hy => (hcells x hx y hy).2⟩

theorem Same.text_eq (h : P.Same Q) : P.text = Q.text := by
  have hrow : ∀ x < P.rows, P.rowText x = Q.rowText x := by
    intro x hx
    have hcells : ∀ y ∈ List.range P.cols, cellText (P.wallLeft x y) (P.pips x y) =
        cellText (Q.wallLeft x y) (Q.pips x y) := by
      intro y hy
      rw [h.wallLeft x hx y (List.mem_range.1 hy), h.pips x hx y (List.mem_range.1 hy)]
    have hbelow : ∀ y ∈ List.range P.cols, belowText (P.wallBelow x y) =
        belowText (Q.wallBelow x y) := by
      intro y hy
      rw [h.wallBelow x hx y (List.mem_range.1 hy)]
    rw [rowText, rowText, List.flatMap_congr hcells, List.flatMap_congr hbelow, h.cols]
  rw [text, text, List.flatMap_congr fun x hx => hrow x (List.mem_range.1 hx), h.rows, h.cols]

/-- No wall stands between a cell and its mate. -/
def Gap (P : Plan) (o : Orientation) (c : Nat × Nat) : Prop :=
  ((o.mate c).1 < P.rows ∧ (o.mate c).2 < P.cols) ∧
    match o with
    | .horizontal => P.wallLeft c.1 (c.2 + 1) = false
    | .vertical => P.wallBelow c.1 c.2 = false

/-- The two cells share a side without a wall. -/
def Open (P : Plan) (u v : Nat × Nat) : Prop :=
  ∃ o : Orientation, v = o.mate u ∧ P.Gap o u ∨ u = o.mate v ∧ P.Gap o v

theorem gap_horizontal_iff {x y : Nat} (hx : x < P.rows) (hy : y + 1 < P.cols) :
    P.Gap .horizontal (x, y) ↔ P.wallLeft x (y + 1) = false := and_iff_right ⟨hx, hy⟩

theorem gap_vertical_iff {x y : Nat} (hx : x + 1 < P.rows) (hy : y < P.cols) :
    P.Gap .vertical (x, y) ↔ P.wallBelow x y = false := and_iff_right ⟨hx, hy⟩

theorem Same.gap_iff (h : P.Same Q) {o : Orientation} {c : Nat × Nat} :
    P.Gap o c ↔ Q.Gap o c := by
  unfold Gap
  rw [← h.rows, ← h.cols]
  refine and_congr_right ?_
  rintro ⟨hx, hy⟩
  cases o with
  | horizontal =>
    dsimp only
    rw [h.wallLeft c.1 hx (c.2 + 1) hy]
  | vertical =>
    dsimp only
    rw [h.wallBelow c.1 (Nat.lt_of_succ_lt hx) c.2 hy]

theorem Same.open_iff (h : P.Same Q) {u v : Nat × Nat} : P.Open u v ↔ Q.Open u v := by
  simp only [Open, h.gap_iff]

theorem open_mate_iff {o : Orientation} {c : Nat × Nat} : P.Open c (o.mate c) ↔ P.Gap o c := by
  constructor
  · rintro ⟨o', ⟨hmate, hgap⟩ | ⟨hmate, -⟩⟩
    · cases o <;> cases o' <;> simp [Orientation.mate] at hmate <;> exact hgap
    · cases o <;> cases o' <;> simp [Orientation.mate, Prod.ext_iff] at hmate <;> omega
  · exact fun hgap => ⟨o, .inl ⟨rfl, hgap⟩⟩

end Plan

/-! ### The plan of a board with its solution -/

def planOf (b : Board) (p : Placement) : Plan where
  rows := b.rows
  cols := b.cols
  pips x y := (b.at? (x, y)).getD 0
  wallLeft x y := y == 0 || p.at? (x, y) != p.at? (x, y - 1)
  wallBelow x y := decide (b.rows ≤ x + 1) || p.at? (x, y) != p.at? (x + 1, y)

section
variable {b : Board} {p : Placement} {x y : Nat}

theorem get_of_at? {α : Type} {g : Grid α} {a : α} (h : g.at? (x, y) = some a) : g.get x y = .ok a := by
  obtain ⟨hx, hy⟩ := Grid.lt_of_at? h
  exact (Grid.get_eq_ok_iff_at? hx hy).2 h

theorem leftWall_eq (hp : p.HasShape b) (hx : x < b.rows) (hy : y < b.cols) :
    leftWall p true x y = .ok ((planOf b p).wallLeft x y) := by
  rw [← hp.1] at hx
  rw [← hp.2] at hy
  by_cases hfirst : y = 0
  · subst hfirst
    rfl
  · obtain ⟨here, hhere⟩ := Grid.exists_at? (g := p) (c := (x, y)) ⟨hx, hy⟩
    obtain ⟨left, hleft⟩ := Grid.exists_at? (g := p) (c := (x, y - 1)) ⟨hx, by dsimp only; omega⟩
    rw [leftWall, if_neg hfirst, get_of_at? hhere, get_of_at? hleft]
    simp only [planOf, hhere, hleft, beq_eq_false_iff_ne.2 hfirst, Bool.false_or]
    rfl

theorem lowerWall_eq (hp : p.HasShape b) (hy : y < b.cols) :
    lowerWall p true b.rows x y = .ok ((planOf b p).wallBelow x y) := by
  by_cases hlast : b.rows ≤ x + 1
  · rw [lowerWall, if_pos hlast]
    simp only [planOf, decide_eq_true hlast, Bool.true_or]
    rfl
  · have hbelow : x + 1 < p.rows := hp.1 ▸ Nat.lt_of_not_le hlast
    rw [← hp.2] at hy
    obtain ⟨here, hhere⟩ := Grid.exists_at? (g := p) (c := (x, y)) ⟨Nat.lt_of_succ_lt hbelow, hy⟩
    obtain ⟨below, hbelow⟩ := Grid.exists_at? (g := p) (c := (x + 1, y)) ⟨hbelow, hy⟩
    rw [lowerWall, if_neg hlast, get_of_at? hhere, get_of_at? hbelow]
    simp only [planOf, hhere, hbelow, decide_eq_false hlast, Bool.false_or]
    rfl

theorem mapM_eq_map {α β : Type} {f : α → Except Fault β} {g : α → β} {l : List α}
    (h : ∀ a ∈ l, f a = .ok (g a)) : l.mapM f = .ok (l.map g) := by
  induction l with
  | nil => rfl
  | cons a l ih =>
    rw [List.mapM_cons, h a (List.mem_cons_self ..), ih fun a ha => h a (List.mem_cons_of_mem _ ha)]
    rfl

theorem row_eq (hp : p.HasShape b) (hx : x < b.rows) :
    row b p true x = .ok ((planOf b p).rowText x) := by
  have hcells : (List.range b.cols).mapM (cell b p true x) = .ok ((List.range b.cols).map fun y =>
      cellText ((planOf b p).wallLeft x y) ((planOf b p).pips x y)) := by
    refine mapM_eq_map ?_
    intro y hy
    have hy := List.mem_range.1 hy
    obtain ⟨m, hm⟩ := Grid.exists_at? (g := b) (c := (x, y)) ⟨hx, hy⟩
    rw [cell, leftWall_eq hp hx hy, get_of_at? hm]
    simp only [planOf, hm, Option.getD_some]
    rfl
  have hbelow : (List.range b.cols).mapM (belowCell b p true x) =
      .ok ((List.range b.cols).map fun y => belowText ((planOf b p).wallBelow x y)) := by
    refine mapM_eq_map ?_
    intro y hy
    rw [belowCell, lowerWall_eq hp (List.mem_range.1 hy)]
    rfl
  rw [row, hcells, hbelow, Plan.rowText, List.flatMap_def, List.flatMap_def]
  rfl

theorem board_eq (hp : p.HasShape b) : board b p true = .ok (planOf b p).text := by
  have hrows : (List.range b.rows).mapM (row b p true) =
      .ok ((List.range b.rows).map (planOf b p).rowText) :=
    mapM_eq_map fun x hx => row_eq hp (List.mem_range.1 hx)
  rw [board, hrows, Plan.text, List.flatMap_def]
  rfl

/-- A wall is missing where two neighbours hold the same. -/
theorem gap_planOf_iff {o : Orientation} {c : Nat × Nat} :
    (planOf b p).Gap o c ↔
      ((o.mate c).1 < b.rows ∧ (o.mate c).2 < b.cols) ∧ p.at? (o.mate c) = p.at? c := by
  refine and_congr_right ?_
  intro hmate
  cases o with
  | horizontal => simp [planOf, Orientation.mate]
  | vertical =>
    have hlast : ¬ b.rows ≤ c.1 + 1 := Nat.not_le.2 hmate.1
    show (decide (b.rows ≤ c.1 + 1) || p.at? c != p.at? (c.1 + 1, c.2)) = false ↔
      p.at? (c.1 + 1, c.2) = p.at? c
    rw [decide_eq_false hlast, Bool.false_or, bne_eq_false_iff_eq]
    exact eq_comm

theorem open_planOf_iff (h : p.InPairs b) {u v : Nat × Nat} :
    (planOf b p).Open u v ↔ p.Joined u v := by
  have hjoined : ∀ (o : Orientation) (c : Nat × Nat),
      (planOf b p).Gap o c ↔ p.Joined c (o.mate c) := by
    intro o c
    rw [gap_planOf_iff]
    constructor
    · rintro ⟨hmate, heq⟩
      obtain ⟨i, hi⟩ := h.full _ hmate.1 hmate.2
      exact ⟨Ne.symm (o.mate_ne c), i, heq ▸ hi, hi⟩
    · rintro ⟨-, i, hc, hmate⟩
      exact ⟨ExactCover.lt_of_covered h.shape hmate, hmate.trans hc.symm⟩
  constructor
  · rintro ⟨o, ⟨rfl, hgap⟩ | ⟨rfl, hgap⟩⟩
    · exact (hjoined o u).1 hgap
    · obtain ⟨hne, i, hv, hu⟩ := (hjoined o v).1 hgap
      exact ⟨Ne.symm hne, i, hu, hv⟩
  · intro huv
    obtain ⟨o, rfl | rfl⟩ := Placement.exists_mate_of_adjacent (h.adjacent_of_joined huv)
    · exact ⟨o, .inl ⟨rfl, (hjoined o u).2 huv⟩⟩
    · obtain ⟨hne, i, hu, hv⟩ := huv
      exact ⟨o, .inr ⟨rfl, (hjoined o v).2 ⟨Ne.symm hne, i, hv, hu⟩⟩⟩

end

theorem same_planOf_iff {b₁ b₂ : Board} {p₁ p₂ : Placement} :
    (planOf b₁ p₁).Same (planOf b₂ p₂) ↔
      b₁ = b₂ ∧ ∀ u v, (planOf b₁ p₁).Open u v ↔ (planOf b₂ p₂).Open u v := by
  constructor
  · intro h
    refine ⟨?_, fun u v => h.open_iff⟩
    have hrows : b₁.rows = b₂.rows := h.rows
    have hcols : b₁.cols = b₂.cols := h.cols
    refine Grid.ext_at? hrows hcols ?_
    rintro ⟨x, y⟩
    by_cases hon : x < b₁.rows ∧ y < b₁.cols
    · obtain ⟨m, hm⟩ := Grid.exists_at? (g := b₁) (c := (x, y)) hon
      obtain ⟨n, hn⟩ := Grid.exists_at? (g := b₂) (c := (x, y)) (hrows ▸ hcols ▸ hon)
      have hpips := h.pips x hon.1 y hon.2
      simp only [planOf, hm, hn, Option.getD_some] at hpips
      rw [hm, hn, hpips]
    · rw [Grid.at?, if_neg hon, Grid.at?, if_neg (hrows ▸ hcols ▸ hon)]
  · rintro ⟨rfl, hopen⟩
    have hgap : ∀ o c, (planOf b₁ p₁).Gap o c ↔ (planOf b₁ p₂).Gap o c := by
      intro o c
      rw [← Plan.open_mate_iff, hopen, Plan.open_mate_iff]
    refine ⟨rfl, rfl, fun _ _ _ _ => rfl, ?_, ?_⟩
    · intro x hx y hy
      cases y with
      | zero => rfl
      | succ y =>
        have hwall := hgap .horizontal (x, y)
        rw [Plan.gap_horizontal_iff (P := planOf b₁ p₁) hx hy,
          Plan.gap_horizontal_iff (P := planOf b₁ p₂) hx hy] at hwall
        exact Bool.eq_iff_iff.2 (not_iff_not.1 (by simpa using hwall))
    · intro x hx y hy
      by_cases hlast : b₁.rows ≤ x + 1
      · simp [planOf, hlast]
      · have hwall := hgap .vertical (x, y)
        have hbelow := Nat.lt_of_not_le hlast
        rw [Plan.gap_vertical_iff (P := planOf b₁ p₁) hbelow hy,
          Plan.gap_vertical_iff (P := planOf b₁ p₂) hbelow hy] at hwall
        exact Bool.eq_iff_iff.2 (not_iff_not.1 (by simpa using hwall))

/-- Two solutions have the same drawing if and only if they are of the same board and in the same
pairs of cells. In the drawing of a solved board every cell is open to exactly one other, the one under
the same domino. -/
theorem drawing_shows_pairs :
    (∀ (b₁ b₂ : Board) (p₁ p₂ : Placement), p₁.InPairs b₁ → p₂.InPairs b₂ →
      ∃ t₁ t₂, board b₁ p₁ true = .ok t₁ ∧ board b₂ p₂ true = .ok t₂ ∧
        (t₁ = t₂ ↔ b₁ = b₂ ∧ ∀ u v, p₁.Joined u v ↔ p₂.Joined u v)) ∧
    ∀ (b : Board) (v : Search.Verdict) (p : Placement),
      Search.solveBoard b = .ok v → v.cover? = some p →
      ∃ t, board b p true = .ok t ∧ (∃ P : Plan, P.text = t) ∧ ∀ P : Plan, P.text = t →
        P.rows = b.rows ∧ P.cols = b.cols ∧
        (∀ x y, x < b.rows → y < b.cols → b.at? (x, y) = some (P.pips x y)) ∧
        (∀ u w, P.Open u w ↔ p.Joined u w) ∧
        ∀ u : Nat × Nat, u.1 < b.rows → u.2 < b.cols → (∃! w, P.Open u w) ∧
          ∀ w, P.Open u w → ∃ i, p.at? u = some (some i) ∧ p.at? w = some (some i) ∧
            (Tile.mk i u w).Lies b (Domino.upTo b.maxPips) := by
  constructor
  · intro b₁ b₂ p₁ p₂ h₁ h₂
    refine ⟨_, _, board_eq h₁.shape, board_eq h₂.shape, ?_⟩
    have htext : (planOf b₁ p₁).text = (planOf b₂ p₂).text ↔ (planOf b₁ p₁).Same (planOf b₂ p₂) :=
      ⟨Plan.same_of_text_eq, Plan.Same.text_eq⟩
    simp only [htext, same_planOf_iff, open_planOf_iff h₁, open_planOf_iff h₂]
  · intro b v p hv hcover
    obtain ⟨q, hq, hsolve⟩ := Search.solve_of_solveBoard hv
    unfold Search.Verdict.cover? at hcover
    split at hcover
    · rename_i hsolved
      obtain rfl := Option.some.inj hcover
      have hexact := Search.exactCover_of_solve hq hsolve hsolved
      have hpairs := hexact.inPairs
      refine ⟨_, board_eq hpairs.shape, ⟨_, rfl⟩, ?_⟩
      intro P hP
      have hsame := Plan.same_of_text_eq hP
      have hopen : ∀ u w, P.Open u w ↔ v.placement.Joined u w := fun u w =>
        hsame.open_iff.trans (open_planOf_iff hpairs)
      refine ⟨hsame.rows, hsame.cols, ?_, hopen, ?_⟩
      · intro x y hx hy
        obtain ⟨m, hm⟩ := Grid.exists_at? (g := b) (c := (x, y)) ⟨hx, hy⟩
        rw [hsame.symm.pips x hx y hy |>.symm]
        simp [planOf, hm]
      · intro u hx hy
        simp only [hopen]
        exact ⟨hpairs.existsUnique_joined hx hy, fun w huw => hexact.exists_domino huw⟩
    · cases hcover

/-- Two solutions with dominoes at different positions of their lists, and one with a wall between its
rows. -/
theorem drawing_shows_pairs_two_by_two :
    (∀ u v, Placement.Joined ⟨2, 2, #[some 0, some 0, some 1, some 1], rfl, by decide⟩ u v ↔
      Placement.Joined ⟨2, 2, #[some 1, some 1, some 0, some 0], rfl, by decide⟩ u v) ∧
    ∃ P : Plan, board ⟨2, 2, #[0, 0, 1, 1], rfl, by decide⟩
        ⟨2, 2, #[some 0, some 0, some 2, some 2], rfl, by decide⟩ true = .ok P.text ∧
      P.Open (0, 0) (0, 1) ∧ ¬ P.Open (0, 0) (1, 0) := by
  have hempty : Placement.forBoard ⟨2, 2, #[0, 0, 1, 1], rfl, by decide⟩ =
      .ok ⟨2, 2, #[none, none, none, none], rfl, by decide⟩ := by
    rfl
  have hfirst : Search.solve ⟨2, 2, #[0, 0, 1, 1], rfl, by decide⟩
      ⟨2, 2, #[none, none, none, none], rfl, by decide⟩ [⟨0, 0⟩, ⟨1, 1⟩] =
      .ok ⟨true, ⟨2, 2, #[some 0, some 0, some 1, some 1], rfl, by decide⟩, 2, 7, 0⟩ := by
    cbv
  have hsecond : Search.solve ⟨2, 2, #[0, 0, 1, 1], rfl, by decide⟩
      ⟨2, 2, #[none, none, none, none], rfl, by decide⟩ [⟨1, 1⟩, ⟨0, 0⟩] =
      .ok ⟨true, ⟨2, 2, #[some 1, some 1, some 0, some 0], rfl, by decide⟩, 2, 7, 0⟩ := by
    cbv
  have hboard : Search.solveBoard ⟨2, 2, #[0, 0, 1, 1], rfl, by decide⟩ =
      .ok ⟨true, ⟨2, 2, #[some 0, some 0, some 2, some 2], rfl, by decide⟩, 3, 7, 0⟩ := by
    cbv
  constructor
  · obtain ⟨t₁, t₂, h₁, h₂, heq⟩ := drawing_shows_pairs.1 _ _ _ _
      (Search.exactCover_of_solve hempty hfirst rfl).inPairs
      (Search.exactCover_of_solve hempty hsecond rfl).inPairs
    have hsame : board ⟨2, 2, #[0, 0, 1, 1], rfl, by decide⟩
          ⟨2, 2, #[some 0, some 0, some 1, some 1], rfl, by decide⟩ true =
        board ⟨2, 2, #[0, 0, 1, 1], rfl, by decide⟩
          ⟨2, 2, #[some 1, some 1, some 0, some 0], rfl, by decide⟩ true := by
      rfl
    exact (heq.1 (Except.ok.inj (h₁.symm.trans (hsame.trans h₂)))).2
  · obtain ⟨t, ht, ⟨P, rfl⟩, hplan⟩ := drawing_shows_pairs.2 _ _ _ hboard rfl
    obtain ⟨-, -, -, hopen, -⟩ := hplan P rfl
    refine ⟨P, ht, (hopen _ _).2 ⟨by decide, 0, rfl, rfl⟩, ?_⟩
    intro hbelow
    obtain ⟨-, i, hfirst, hlast⟩ := (hopen _ _).1 hbelow
    cases hfirst
    cases hlast

end Drawing
end DominoTiling
