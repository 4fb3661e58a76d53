import DominoTiling.Proofs.BoardText

/-!
# What a board text can be

The other direction of reading: whatever a reader finds stood in the text. A whole number is read
only where its own digits stand (`eq_of_readNumber`), since everything else that begins like a number
is a fraction or refused. A reader `Finds` its values as tokens if what it takes off a text are the
tokens of the value it gives, with blank space around them; a sequence of what is found is found
(`finds_sequence`). So a text is read as a board only if it is spaced out from the text of that board,
and with the texts that are read (`readRows_of_spaced`) these are all.
-/

namespace DominoTiling.BoardText
open Text (isDigit digitValue)
variable {c : Char} {text rest : List Char} {minus : Bool} {m n : Nat} {exponent : Int}

/-! ### Whole numbers -/

theorem digit_of_isDigit (h : isDigit c = true) :
    digitValue c < 10 ∧ (digitValue c).digitChar = c := by
  simp only [isDigit, Bool.and_eq_true, decide_eq_true_eq, Char.le_def, UInt32.le_iff_toNat_le] at h
  obtain ⟨hlow, hhigh⟩ := h
  have hzero : '0'.toNat = 48 := rfl
  have hlow' : 48 ≤ c.toNat := hlow
  have hhigh' : c.toNat ≤ 57 := hhigh
  have hlt : digitValue c < 10 := by
    rw [digitValue]
    omega
  refine ⟨hlt, Char.toNat_inj.1 ?_⟩
  rw [Nat.toNat_digitChar_of_lt_ten hlt, digitValue]
  omega

/-- The digits that are gathered are those of the number, if it has no zero in front. -/
theorem toDigits_of_gatherDigits {limit count k : Nat} (hn : 0 < n)
    (h : gatherDigits limit n count text = (m, k, rest)) :
    Nat.toDigits 10 m ++ rest = Nat.toDigits 10 n ++ text := by
  induction text generalizing n count with
  | nil =>
    simp only [gatherDigits, Prod.mk.injEq] at h
    obtain ⟨rfl, -, rfl⟩ := h
    rfl
  | cons c text ih =>
    rw [gatherDigits] at h
    split at h
    · rename_i hc
      simp only [Bool.and_eq_true, decide_eq_true_eq] at hc
      obtain ⟨hlt, hchar⟩ := digit_of_isDigit hc.1
      rw [ih (by omega) h, Nat.mul_comm n 10,
        ← Nat.toDigits_append_toDigits (by decide) hn hlt, Nat.toDigits_of_lt_base hlt, hchar,
        List.append_assoc]
      rfl
    · simp only [Prod.mk.injEq] at h
      obtain ⟨rfl, -, rfl⟩ := h
      rfl

/-- The reading gives no whole number. -/
def NotWhole (reading : Except Stop (Found × List Char)) : Prop :=
  ∀ n rest, reading ≠ .ok (.natural n, rest)

theorem notWhole_error (stop : Stop) : NotWhole (.error stop) := fun _ _ h => nomatch h

theorem notWhole_finishFloat : NotWhole (finishFloat minus n exponent rest) := by
  intro m rest' h
  unfold finishFloat at h
  split at h <;> cases h

theorem notWhole_finishHugeExponent {down : Bool} :
    NotWhole (finishHugeExponent minus down n rest) := by
  intro m rest' h
  unfold finishHugeExponent at h
  split at h <;> cases h

theorem notWhole_readExponentDigits {down : Bool} :
    NotWhole (readExponentDigits minus down n exponent text) := by
  unfold readExponentDigits
  split
  · exact notWhole_error _
  · split
    · dsimp only
      split
      · split
        · exact notWhole_finishHugeExponent
        · exact notWhole_finishFloat
      · exact notWhole_finishFloat
    · exact notWhole_error _

theorem notWhole_readExponent : NotWhole (readExponent minus n exponent text) := by
  unfold readExponent
  split <;> exact notWhole_readExponentDigits

theorem notWhole_readAfterFraction : NotWhole (readAfterFraction minus n exponent text) := by
  unfold readAfterFraction
  split
  · exact notWhole_readExponent
  · exact notWhole_readExponent
  · exact notWhole_finishFloat

theorem notWhole_readFraction : NotWhole (readFraction minus n exponent text) := by
  unfold readFraction
  dsimp only
  split
  · exact notWhole_readAfterFraction
  · split
    · exact notWhole_error _
    · exact notWhole_readAfterFraction

theorem notWhole_readLongWhole : NotWhole (readLongWhole minus n text) := by
  unfold readLongWhole
  dsimp only
  split
  · exact notWhole_readFraction
  · exact notWhole_readAfterFraction

theorem eq_of_readAfterWhole (h : readAfterWhole minus n text = .ok (.natural m, rest)) :
    minus = false ∧ m = n ∧ rest = text := by
  unfold readAfterWhole at h
  split at h
  · exact absurd h (notWhole_readFraction m rest)
  · exact absurd h (notWhole_readExponent m rest)
  · exact absurd h (notWhole_readExponent m rest)
  · split at h
    · rename_i hminus
      simp only [Except.ok.injEq, Prod.mk.injEq, Found.natural.injEq] at h
      exact ⟨by simpa using hminus, h.1.symm, h.2.symm⟩
    · split at h
      · cases h
      · exact absurd h (notWhole_finishFloat m rest)

theorem eq_of_readMagnitude (h : readMagnitude minus text = .ok (.natural n, rest)) :
    minus = false ∧ text = Nat.toDigits 10 n ++ rest := by
  unfold readMagnitude at h
  split at h
  · cases h
  · split at h
    · cases h
    · obtain ⟨hminus, rfl, rfl⟩ := eq_of_readAfterWhole h
      exact ⟨hminus, rfl⟩
  · rename_i c text hzero
    split at h
    · rename_i hc
      obtain ⟨hlt, hchar⟩ := digit_of_isDigit hc
      have hpos : 0 < digitValue c := by
        rcases Nat.eq_zero_or_pos (digitValue c) with h0 | hpos
        · rw [h0] at hchar
          exact absurd hchar.symm hzero
        · exact hpos
      generalize hgather : gatherDigits significandLimit (digitValue c) 0 text = gathered at h
      obtain ⟨m, k, text'⟩ := gathered
      dsimp only at h
      split at h
      · exact absurd h (notWhole_readLongWhole n rest)
      · obtain ⟨hminus, rfl, rfl⟩ := eq_of_readAfterWhole h
        refine ⟨hminus, ?_⟩
        rw [toDigits_of_gatherDigits hpos hgather, Nat.toDigits_of_lt_base hlt, hchar]
        rfl
    · cases h

/-- A whole number is read only from its own digits. -/
theorem eq_of_readNumber (h : readNumber text = .ok (.natural n, rest)) :
    text = Nat.toDigits 10 n ++ rest := by
  unfold readNumber at h
  split at h
  · exact absurd (eq_of_readMagnitude h).1 (by decide)
  · exact (eq_of_readMagnitude h).2

/-! ### Blank space -/

variable {t : List Char} {ts more : List (List Char)}

theorem exists_blank (text : List Char) :
    ∃ blank, (∀ c ∈ blank, isSpace c = true) ∧ text = blank ++ skipSpace text :=
  ⟨text.takeWhile isSpace, List.all_eq_true.1 List.all_takeWhile,
    List.takeWhile_append_dropWhile.symm⟩

/-- Blank space may stand in front of any token and at the end. -/
theorem Spaced.of_skipSpace (h : Spaced ts (skipSpace text)) : Spaced ts text := by
  obtain ⟨blank, hblank, htext⟩ := exists_blank text
  rw [htext]
  generalize skipSpace text = after at h
  cases h with
  | done hafter => exact .done fun c hc => (List.mem_append.1 hc).elim (hblank c) (hafter c)
  | token hafter hrest =>
    rw [← List.append_assoc]
    exact .token (fun c hc => (List.mem_append.1 hc).elim (hblank c) (hafter c)) hrest

theorem Spaced.of_skipSpace_eq (h : skipSpace text = t ++ rest) (hrest : Spaced ts rest) :
    Spaced (t :: ts) text :=
  .of_skipSpace (.of_eq h hrest)

/-- A text without its blank space is its tokens, as long as these have none. -/
theorem Spaced.filter_eq (h : Spaced ts text) (hts : ∀ t ∈ ts, ∀ c ∈ t, isSpace c = false) :
    text.filter (fun c => !isSpace c) = ts.flatten := by
  induction h with
  | done hblank => simpa using hblank
  | @token blank rest t ts hblank _ ih =>
    rw [List.forall_mem_cons] at hts
    have hnone : blank.filter (fun c => !isSpace c) = [] := by simpa using hblank
    have hall : t.filter (fun c => !isSpace c) = t := by simpa using hts.1
    rw [List.filter_append, List.filter_append, hnone, hall, ih hts.2, List.nil_append,
      List.flatten_cons]

/-! ### Readers that find tokens -/

section
variable {α : Type} {element : List Char → Except Stop (α × List Char)}
  {itemTokens : α → List (List Char)} {good : α → Prop} {a : α} {as : List α} {steps : Nat}

/-- A value that the reader gives is a good one, and its tokens stood in front of the rest of the
text. -/
def Finds (element : List Char → Except Stop (α × List Char)) (itemTokens : α → List (List Char))
    (good : α → Prop) : Prop :=
  ∀ text a rest, element text = .ok (a, rest) →
    good a ∧ ∀ more, Spaced more rest → Spaced (itemTokens a ++ more) text

theorem finds_pips (steps : Nat) :
    Finds (readPips steps) (fun n => [Nat.toDigits 10 n]) (· < 2 ^ 32) := by
  intro text n rest h
  unfold readPips at h
  split at h
  · cases h
  · rename_i c after hskip
    split at h
    · obtain ⟨⟨found, stop⟩, hread, h⟩ := bind_eq_ok_iff.1 h
      dsimp only at h
      split at h
      · rename_i m
        split at h
        · rename_i hlt
          simp only [pure, Except.pure, Except.ok.injEq, Prod.mk.injEq] at h
          obtain ⟨rfl, rfl⟩ := h
          exact ⟨hlt, fun more hmore =>
            .of_skipSpace_eq (hskip.trans (eq_of_readNumber hread)) hmore⟩
        · cases h
      · cases h
      · cases h
    · cases h

theorem finds_elements (h : Finds element itemTokens good)
    (hread : readElements element steps text = .ok (as, rest)) :
    (∀ a ∈ as, good a) ∧
      ∀ more, Spaced more rest → Spaced (tailTokens itemTokens as ++ more) text := by
  induction steps generalizing text as with
  | zero => cases hread
  | succ steps ih =>
    rw [readElements] at hread
    split at hread
    · cases hread
    · rename_i rest' hclose
      simp only [Except.ok.injEq, Prod.mk.injEq] at hread
      obtain ⟨rfl, rfl⟩ := hread
      exact ⟨fun _ ha => absurd ha List.not_mem_nil, fun more hmore => .of_skipSpace_eq hclose hmore⟩
    · rename_i rest' hcomma
      split at hread
      · cases hread
      · cases hread
      · obtain ⟨⟨a, next⟩, ha, hread⟩ := bind_eq_ok_iff.1 hread
        obtain ⟨⟨as, stop⟩, has, hread⟩ := bind_eq_ok_iff.1 hread
        simp only [pure, Except.pure, Except.ok.injEq, Prod.mk.injEq] at hread
        obtain ⟨rfl, rfl⟩ := hread
        obtain ⟨hgood, hitem⟩ := h _ _ _ ha
        obtain ⟨hgoods, hitems⟩ := ih has
        refine ⟨List.forall_mem_cons.2 ⟨hgood, hgoods⟩, fun more hmore => ?_⟩
        have hnext := Spaced.of_skipSpace (hitem _ (hitems more hmore))
        have htokens : tailTokens itemTokens (a :: as) ++ more =
            [','] :: (itemTokens a ++ (tailTokens itemTokens as ++ more)) := by
          simp [tailTokens]
        rw [htokens]
        exact .of_skipSpace_eq hcomma hnext
    · cases hread

/-- A sequence of values that are found is found. -/
theorem finds_sequence (h : Finds element itemTokens good) (steps : Nat) :
    Finds (readSequence element steps) (sequenceTokens itemTokens) (∀ a ∈ ·, good a) := by
  intro text as rest hread
  unfold readSequence at hread
  split at hread
  · cases hread
  · rename_i rest' hopen
    split at hread
    · cases hread
    · rename_i rest'' hclose
      simp only [Except.ok.injEq, Prod.mk.injEq] at hread
      obtain ⟨rfl, rfl⟩ := hread
      exact ⟨fun _ ha => absurd ha List.not_mem_nil, fun more hmore =>
        .of_skipSpace_eq hopen (.of_skipSpace_eq hclose hmore)⟩
    · obtain ⟨⟨a, next⟩, ha, hread⟩ := bind_eq_ok_iff.1 hread
      obtain ⟨⟨as, stop⟩, has, hread⟩ := bind_eq_ok_iff.1 hread
      simp only [pure, Except.pure, Except.ok.injEq, Prod.mk.injEq] at hread
      obtain ⟨rfl, rfl⟩ := hread
      obtain ⟨hgood, hitem⟩ := h _ _ _ ha
      obtain ⟨hgoods, hitems⟩ := finds_elements h has
      refine ⟨List.forall_mem_cons.2 ⟨hgood, hgoods⟩, fun more hmore => ?_⟩
      have hnext := Spaced.of_skipSpace (hitem _ (hitems more hmore))
      rw [sequenceTokens, List.cons_append, List.append_assoc]
      exact .of_skipSpace_eq hopen hnext
  · cases hread

end

/-! ### Rows -/

theorem isSpace_of_mem_sequenceTokens {α : Type} {itemTokens : α → List (List Char)} {as : List α}
    (h : ∀ a ∈ as, ∀ t ∈ itemTokens a, ∀ c ∈ t, isSpace c = false) :
    ∀ t ∈ sequenceTokens itemTokens as, ∀ c ∈ t, isSpace c = false := by
  have hopen : ∀ c ∈ ['['], isSpace c = false := List.forall_mem_singleton.2 rfl
  have hcomma : ∀ c ∈ [','], isSpace c = false := List.forall_mem_singleton.2 rfl
  have hclose : ∀ c ∈ [']'], isSpace c = false := List.forall_mem_singleton.2 rfl
  intro t ht
  cases as with
  | nil =>
    simp only [sequenceTokens, List.mem_cons, List.not_mem_nil, or_false] at ht
    rcases ht with rfl | rfl
    · exact hopen
    · exact hclose
  | cons a as =>
    simp only [sequenceTokens, tailTokens, List.mem_cons, List.mem_append, List.mem_flatMap,
      List.not_mem_nil, or_false] at ht
    rcases ht with rfl | ht | ⟨a', ha', rfl | ht⟩ | rfl
    · exact hopen
    · exact h a (List.mem_cons_self ..) t ht
    · exact hcomma
    · exact h a' (List.mem_cons_of_mem _ ha') t ht
    · exact hclose

theorem isSpace_of_mem_rowsTokens (rows : List (List Nat)) :
    ∀ t ∈ rowsTokens rows, ∀ c ∈ t, isSpace c = false := by
  refine isSpace_of_mem_sequenceTokens fun row _ => isSpace_of_mem_sequenceTokens fun n _ t ht c hc => ?_
  rw [List.mem_singleton.1 ht] at hc
  exact isSpace_of_isDigit (isDigit_of_mem_toDigits hc)

theorem spaced_of_readEnd (h : readEnd text = .ok ()) : Spaced [] text := by
  unfold readEnd at h
  split at h
  · rename_i hskip
    refine .of_skipSpace ?_
    rw [hskip]
    exact .done fun _ hc => nomatch hc
  · cases h

theorem finds_rows : Finds readRows rowsTokens (∀ row ∈ ·, ∀ n ∈ row, n < 2 ^ 32) :=
  fun text _ _ h =>
    finds_sequence (finds_sequence (finds_pips text.length) text.length) text.length _ _ _ h

end DominoTiling.BoardText

namespace DominoTiling.Board
open BoardText (Spaced rowsTokens isSpace)
variable {rows : List (List Nat)} {b b' : Board}

/-- A board with a cell, with pip counts of 32 bits and with room for its cells. -/
structure Proper (b : Board) : Prop where
  rows_pos : 1 ≤ b.rows
  cols_pos : 1 ≤ b.cols
  cells_lt : b.rows * b.cols < 2 ^ 61
  pips_lt : ∀ n ∈ b.cells, n < 2 ^ 32

theorem atPlace_eq_ok_iff {α : Type} {text : List Char} {reading : Except BoardText.Stop α} {a : α} :
    atPlace text reading = .ok a ↔ reading = .ok a := by
  cases reading with
  | ok _ => exact ⟨fun h => (by cases h; rfl), fun h => (by cases h; rfl)⟩
  | error _ => exact ⟨fun h => (by cases h), fun h => (by cases h)⟩

theorem of_ofRows (h : ofRows rows = .ok b) :
    1 ≤ b.rows ∧ 1 ≤ b.cols ∧ b.rows * b.cols < 2 ^ 61 ∧ b.toRows = rows := by
  unfold ofRows at h
  dsimp only at h
  split at h
  · cases h
  · rename_i hpos
    split at h
    · obtain ⟨_, hroom, h⟩ := bind_eq_ok_iff.1 h
      have hbytes := lt_of_allocate (liftM_eq_ok_iff.1 hroom)
      split at h
      · cases h
      · rename_i hfind
        obtain rfl := Except.ok.inj h
        dsimp only
        refine ⟨by omega, by omega, by omega, List.eq_iff_flatten_eq.2 ⟨Grid.flatten_toRows _, ?_⟩⟩
        have hlength : ∀ row ∈ rows, row.length = (rows.head?.map List.length).getD 0 :=
          fun row hrow => by simpa using List.findIdx?_eq_none_iff.1 hfind row hrow
        rw [List.map_congr_left fun row => Grid.length_of_mem_toRows, List.map_congr_left hlength,
          List.map_const', List.map_const', Grid.length_toRows]
    · cases h

/-- A text that is read is spaced out from the text of the board. -/
theorem of_parse {s : String} (h : parse s = .ok b) :
    b.Proper ∧ Spaced (rowsTokens b.toRows) s.toList := by
  obtain ⟨⟨rows, rest⟩, hread, h⟩ := bind_eq_ok_iff.1 h
  obtain ⟨_, hend, h⟩ := bind_eq_ok_iff.1 h
  obtain ⟨hrows, hcols, hcells, rfl⟩ := of_ofRows h
  obtain ⟨hpips, hspaced⟩ := BoardText.finds_rows _ _ _ (atPlace_eq_ok_iff.1 hread)
  have hall := hspaced [] (BoardText.spaced_of_readEnd (atPlace_eq_ok_iff.1 hend))
  rw [List.append_nil] at hall
  refine ⟨⟨hrows, hcols, hcells, fun n hn => ?_⟩, hall⟩
  rw [← Array.mem_toList_iff, ← Grid.flatten_toRows] at hn
  obtain ⟨row, hrow, hn⟩ := List.mem_flatten.1 hn
  exact hpips row hrow n hn

namespace Proper

theorem parse_of_spaced {s : String} (h : b.Proper) (hs : Spaced (rowsTokens b.toRows) s.toList) :
    parse s = .ok b := by
  have hcells := h.cells_lt
  rw [Board.parse_of_spaced (pips_toRows h.pips_lt) hs,
    ofRows_toRows h.rows_pos h.cols_pos (by omega)]

theorem parse_text (h : b.Proper) : parse b.text = .ok b :=
  h.parse_of_spaced (b.toList_text ▸ .flatten _)

end Proper

/-- A board is read exactly from the texts that have its own text with any blank space around the
brackets, commas and numbers of it. So it is read back from its text, a text that is read is the text
of the board but for its blank space, and no two boards have the same text. -/
theorem parse_iff_spaced :
    (∀ s b, parse s = .ok b ↔ b.Proper ∧ Spaced (rowsTokens b.toRows) s.toList) ∧
    (∀ b : Board, (rowsTokens b.toRows).flatten = b.text.toList) ∧
    (∀ b : Board, b.Proper → parse b.text = .ok b) ∧
    (∀ s b, parse s = .ok b → b.text.toList = s.toList.filter fun c => !isSpace c) ∧
    (∀ b b' : Board, b.Proper → b'.Proper → b.text = b'.text → b = b') := by
  refine ⟨fun s b => ⟨of_parse, fun h => h.1.parse_of_spaced h.2⟩, fun b => b.toList_text.symm,
    fun b => Proper.parse_text, fun s b h => ?_, fun b b' h h' htext => ?_⟩
  · rw [(of_parse h).2.filter_eq (BoardText.isSpace_of_mem_rowsTokens _), toList_text]
  · have hread := h.parse_text
    rw [htext, h'.parse_text] at hread
    exact (Except.ok.inj hread).symm

/-- A text with all four blank characters. -/
theorem parse_iff_spaced_two_by_two :
    ∃ b : Board, parse " [[0,\t10],\r\n[7 ,4294967295 ]\n] " = .ok b ∧ b.Proper ∧
      b.text = "[[0,10],[7,4294967295]]" ∧ parse b.text = .ok b := by
  have hread : parse " [[0,\t10],\r\n[7 ,4294967295 ]\n] " =
      .ok ⟨2, 2, #[0, 10, 7, 4294967295], rfl, by decide⟩ := by
    rfl
  obtain ⟨hiff, -, hback, hclean, -⟩ := parse_iff_spaced
  have hproper := ((hiff _ _).1 hread).1
  refine ⟨_, hread, hproper, String.toList_inj.1 ((hclean _ _ hread).trans ?_), hback _ hproper⟩
  decide

end DominoTiling.Board
