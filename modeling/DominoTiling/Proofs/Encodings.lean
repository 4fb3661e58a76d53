import DominoTiling.Proofs.BoardGrammar

/-!
# Ways to read and to write a board

A board is written as its text, as one value (`encode`), or piece by piece, with a comma before every
row and every cell but the first (`write`). These are one text for every board, without rows or columns
too (`encode_eq_text`, `write_eq`).

Reading a board as one value looks at the shape before it looks at what follows the rows, so the two
ways of reading can refuse a text for different reasons. They accept the same texts, with the same
boards (`decode_cases`). Rows that no block of storage has room for are stopped at before their shape
is looked at, so as one value they are no text that is refused but a fault (`of_oversized`). These take
a text of at least `2 ^ 30` characters (`Oversized.le_length`).
-/

namespace DominoTiling.BoardText
variable {text rest : List Char} {rows : List (List Nat)}

/-- There are not more rows, nor cells in a row, than characters. -/
theorem length_le_of_readRows (h : readRows text = .ok (rows, rest)) :
    rows.length ≤ text.length ∧ ∀ row ∈ rows, row.length ≤ text.length := by
  have hrest : Spaced [rest] rest := .of_eq (List.append_nil rest).symm (.flatten [])
  have hlength := ((finds_rows _ _ _ h).2 [rest] hrest).length_le
  rw [List.flatten_append, List.length_append] at hlength
  have htokens := Nat.le_trans (Nat.le_add_right ..) hlength
  refine ⟨Nat.le_trans length_le_sequenceTokens htokens, fun row hrow => ?_⟩
  exact Nat.le_trans length_le_sequenceTokens
    (Nat.le_trans (length_item_le_sequenceTokens hrow) htokens)

theorem readEnd_error {stop : Stop} (h : readEnd text = .error stop) :
    stop.cause = .trailingCharacters := by
  unfold readEnd at h
  split at h
  · cases h
  · obtain rfl := Except.error.inj h
    rfl

end DominoTiling.BoardText

namespace DominoTiling.Board
open BoardText (readRows readEnd)
variable {b : Board} {rows : List (List Nat)} {rest : List Char} {s : String}

/-! ### Writing -/

theorem encodeSequence_eq {α : Type} (item : α → List Char) (as : List α) :
    encodeSequence item as = bracketed (as.map item) := by
  cases as with
  | nil => rfl
  | cons a as =>
    rw [encodeSequence, List.map_cons, bracketed, BoardText.intercalate_cons, List.flatMap_map]
    simp

theorem encode_eq_text (b : Board) : b.encode = b.text := by
  rw [encode, text, rowsText, encodeSequence_eq]
  congr 3
  funext row
  exact encodeSequence_eq _ row

/-- Stands before the item at position `i`. -/
def comma (i : Nat) : List Char := if 0 < i then [','] else []

/-- Writes a row behind what is written, cell by cell. -/
def writeRow (out : List Char) (row : List Nat) : List Char :=
  row.zipIdx.foldl (fun out e => out ++ comma e.2 ++ Nat.toDigits 10 e.1) (out ++ ['[']) ++ [']']

/-- Writes the row at position `i` behind what is written. -/
def writeNext (b : Board) (out : List Char) (i : Nat) : Except Fault (List Char) := do
  let row ← b.row i
  return writeRow (out ++ comma i) row

/-- The text of a board, written row by row. -/
def write (b : Board) : Except Fault String := do
  let out ← (List.range b.rows).foldlM b.writeNext ['[']
  return String.ofList (out ++ [']'])

theorem comma_pos {i : Nat} (h : 0 < i) : comma i = [','] := if_pos h

theorem foldl_comma {α : Type} (item : α → List Char) (as : List α) (out : List Char) {i : Nat}
    (h : 0 < i) : (as.zipIdx i).foldl (fun out e => out ++ comma e.2 ++ item e.1) out =
      out ++ as.flatMap fun a => ',' :: item a := by
  induction as generalizing out i with
  | nil => simp
  | cons a as ih =>
    rw [List.zipIdx_cons, List.foldl_cons, ih _ (Nat.succ_pos i), comma_pos h]
    simp

theorem writeRow_eq (out : List Char) (row : List Nat) : writeRow out row = out ++ encodeRow row := by
  cases row with
  | nil => simp [writeRow, encodeRow, encodeSequence]
  | cons n row =>
    rw [writeRow, List.zipIdx_cons, List.foldl_cons, foldl_comma _ _ _ (Nat.succ_pos 0)]
    simp [comma, encodeRow, encodeSequence]

/-- Every row of a board can be read. -/
theorem exists_row {i : Nat} (hrows : b.rows < 2 ^ 64) (hi : i < b.rows) :
    ∃ row, b.row i = .ok row ∧ b.toRows.drop i = row :: b.toRows.drop (i + 1) := by
  have hstop : (i + 1) * b.cols ≤ b.cells.size := b.size_cells ▸ Nat.mul_le_mul_right _ hi
  have hstart : i * b.cols ≤ (i + 1) * b.cols := Nat.mul_le_mul_right _ (Nat.le_succ i)
  have hword := b.size_lt
  have hlt : i < b.toRows.length := by
    rw [Grid.length_toRows]
    exact hi
  refine ⟨(b.cells.extract (i * b.cols) ((i + 1) * b.cols)).toList, ?_, ?_⟩
  · simp only [Grid.row, word_of_lt (show i * b.cols < 2 ^ 64 by omega),
      word_of_lt (show i + 1 < 2 ^ 64 by omega), word_of_lt (show (i + 1) * b.cols < 2 ^ 64 by omega),
      bind, Except.bind, if_pos hstop]
  · rw [List.drop_eq_getElem_cons hlt]
    simp only [Grid.toRows, List.getElem_map, List.getElem_range]

theorem writeNext_eq {i : Nat} {row : List Nat} (h : b.row i = .ok row) (out : List Char) :
    b.writeNext out i = .ok (out ++ comma i ++ encodeRow row) := by
  rw [writeNext, h]
  exact congrArg Except.ok (writeRow_eq _ _)

/-- The rows behind the first, each behind a comma. -/
theorem foldlM_writeNext {i count : Nat} (hrows : b.rows < 2 ^ 64) (h : i + 1 + count = b.rows)
    (out : List Char) :
    (List.range' (i + 1) count).foldlM b.writeNext out =
      .ok (out ++ (b.toRows.drop (i + 1)).flatMap fun row => ',' :: encodeRow row) := by
  induction count generalizing i out with
  | zero =>
    rw [List.drop_eq_nil_of_le (by rw [Grid.length_toRows]; omega), List.flatMap_nil, List.append_nil]
    rfl
  | succ count ih =>
    obtain ⟨row, hrow, hdrop⟩ := exists_row hrows (show i + 1 < b.rows by omega)
    rw [List.range'_succ, List.foldlM_cons, writeNext_eq hrow, hdrop, comma_pos (Nat.succ_pos i)]
    show (List.range' (i + 1 + 1) count).foldlM b.writeNext _ = _
    rw [ih (by omega)]
    simp

theorem write_eq (h : b.rows < 2 ^ 64) : b.write = .ok b.text := by
  rw [← encode_eq_text, write, encode, List.range_eq_range']
  cases hcount : b.rows with
  | zero =>
    have hnone : b.toRows = [] := by rw [Grid.toRows, hcount]; rfl
    rw [hnone]
    rfl
  | succ count =>
    obtain ⟨row, hrow, hdrop⟩ := exists_row h (show 0 < b.rows by omega)
    rw [List.drop_zero] at hdrop
    rw [List.range'_succ, List.foldlM_cons, writeNext_eq hrow]
    show ((List.range' (0 + 1) count).foldlM b.writeNext _ >>= _) = _
    rw [foldlM_writeNext h (by omega), hdrop]
    rfl

/-! ### Reading -/

/-- What reading a board as one value makes of a failure of its rows. -/
def misshapen : Failure → Failure
  | .error e => .error (.unreadableBoard (.misshapen e.message))
  | .fault f => .fault f

theorem parse_of_readRows (h : readRows s.toList = .ok (rows, rest)) :
    parse s = atPlace s.toList (readEnd rest) >>= fun _ => ofRows rows := by
  rw [parse, h]
  rfl

theorem decode_of_readRows (h : readRows s.toList = .ok (rows, rest)) :
    decode s = (ofRows rows).mapError misshapen >>= fun board =>
      atPlace s.toList (readEnd rest) >>= fun _ => .ok board := by
  rw [decode, h]
  rfl

theorem atPlace_eq_error {α : Type} {text : List Char} {reading : Except BoardText.Stop α}
    {stop : BoardText.Stop} (h : reading = .error stop) : atPlace text reading =
      .error (.error (.unreadableBoard (.malformed stop.cause (stop.position text)))) := by
  rw [h]
  rfl

/-- The text holds rows whose cells, as many in each as in the first, are more than a block of storage
has room for. -/
def Oversized (s : String) : Prop :=
  ∃ rows rest, readRows s.toList = .ok (rows, rest) ∧
    2 ^ 61 ≤ rows.length * (rows.head?.map List.length).getD 0

theorem oversized_of_fault {f : Fault} (hread : readRows s.toList = .ok (rows, rest))
    (h : ofRows rows = .error (.fault f)) : Oversized s := by
  refine ⟨rows, rest, hread, Nat.le_of_not_lt fun hlt => ?_⟩
  unfold ofRows at h
  dsimp only at h
  split at h
  · cases h
  · split at h
    · rw [allocate_of_lt (by omega), liftM_ok] at h
      simp only [bind, Except.bind] at h
      split at h
      · cases h
      · cases h
    · omega

theorem Oversized.le_length (h : Oversized s) : 2 ^ 30 ≤ s.length := by
  obtain ⟨rows, rest, hread, hcells⟩ := h
  obtain ⟨hrows, hcols⟩ := BoardText.length_le_of_readRows hread
  have hfirst : (rows.head?.map List.length).getD 0 ≤ s.toList.length := by
    cases rows with
    | nil => exact Nat.zero_le _
    | cons row rows => exact hcols row (List.mem_cons_self ..)
  refine Nat.le_of_not_lt fun hlt => ?_
  have hlength : s.toList.length < 2 ^ 30 := by
    rw [String.length_toList]
    exact hlt
  have hsquare := Nat.mul_le_mul (Nat.le_of_lt (Nat.lt_of_le_of_lt hrows hlength))
    (Nat.le_of_lt (Nat.lt_of_le_of_lt hfirst hlength))
  omega

/-- What is wrong with a text by itself, and as one value: the same; or the shape of its rows, which is
named as such by itself, and only if nothing follows the rows. -/
inductive Reports (s : String) : PuzzleError → BoardText.Failure → Prop where
  | same (failure : BoardText.Failure) : Reports s (.unreadableBoard failure) failure
  | shape {rows : List (List Nat)} {rest : List Char} {e : PuzzleError}
      (hread : readRows s.toList = .ok (rows, rest)) (h : ofRows rows = .error (.error e)) :
      Reports s e (.misshapen e.message)
  | trailing {rows : List (List Nat)} {rest : List Char} {e : PuzzleError}
      (hread : readRows s.toList = .ok (rows, rest)) (h : ofRows rows = .error (.error e))
      (place : BoardText.Position) :
      Reports s (.unreadableBoard (.malformed .trailingCharacters place)) (.misshapen e.message)

theorem decode_cases (hroom : ¬ Oversized s) :
    (∃ b, parse s = .ok b ∧ decode s = .ok b) ∨
    ∃ e failure, parse s = .error (.error e) ∧
      decode s = .error (.error (.unreadableBoard failure)) ∧ Reports s e failure := by
  cases hread : readRows s.toList with
  | error stop =>
    refine .inr ⟨_, _, ?_, ?_, .same (.malformed stop.cause (stop.position s.toList))⟩
    · rw [parse, atPlace_eq_error hread]
      rfl
    · rw [decode, atPlace_eq_error hread]
      rfl
  | ok r =>
    obtain ⟨rows, rest⟩ := r
    rw [parse_of_readRows hread, decode_of_readRows hread]
    cases hmade : ofRows rows with
    | ok b =>
      cases hend : readEnd rest with
      | ok u => exact .inl ⟨b, rfl, rfl⟩
      | error stop => exact .inr ⟨_, _, rfl, rfl, .same _⟩
    | error failure =>
      cases failure with
      | error e =>
        -- as one value the shape is reported, whatever follows the rows
        refine .inr ?_
        cases hend : readEnd rest with
        | ok u => exact ⟨e, _, rfl, rfl, .shape hread hmade⟩
        | error stop =>
          refine ⟨_, _, atPlace_eq_error rfl, rfl, ?_⟩
          rw [BoardText.readEnd_error hend]
          exact .trailing hread hmade _
      | fault f => exact absurd (oversized_of_fault hread hmade) hroom

/-- Behind rows without room a bracket too many is an error by itself, and not looked at as one value. -/
theorem of_oversized {cols : Nat} (hpips : ∀ row ∈ rows, ∀ n ∈ row, n < 2 ^ 32)
    (hcols : (rows.head?.map List.length).getD 0 = cols) (hsize : 2 ^ 61 ≤ rows.length * cols)
    (hword : rows.length * cols < 2 ^ 64) (hs : s.toList = rowsText rows ++ [']']) :
    (∃ place, parse s = .error (.error (.unreadableBoard (.malformed .trailingCharacters place)))) ∧
      decode s = .error (.fault .tooBig) := by
  have hspaced : BoardText.Spaced (BoardText.rowsTokens rows ++ [[']']]) s.toList := by
    have htokens := BoardText.Spaced.flatten (BoardText.rowsTokens rows ++ [[']']])
    rwa [List.flatten_append, BoardText.flatten_rowsTokens, List.flatten_singleton, ← hs] at htokens
  have hends : BoardText.Ends [[']']] := fun t ht => .inr (Option.some.inj ht).symm
  obtain ⟨rest, hread, hrest⟩ := BoardText.readRows_of_spaced hpips hends hspaced
  obtain ⟨stop, hend, hcause⟩ := BoardText.exists_stop_of_spaced hrest rfl
  have hmade : ofRows rows = .error (.fault .tooBig) := by
    have hpos : ¬ (rows.length = 0 ∨ cols = 0) := by
      rintro (h0 | h0) <;> simp [h0] at hsize
    simp only [ofRows, hcols]
    rw [if_neg hpos, dif_pos hword, allocate_of_le (by omega)]
    rfl
  rw [parse_of_readRows hread, decode_of_readRows hread, hmade, atPlace_eq_error hend, hcause]
  exact ⟨⟨_, rfl⟩, rfl⟩

/-- Empty rows behind a long first one, with a bracket too many. -/
theorem of_long_first_row {m n : Nat} (hsize : 2 ^ 61 ≤ (n + 1) * m) (hword : (n + 1) * m < 2 ^ 64) :
    ∃ s place, s = String.ofList (rowsText (List.replicate m 0 :: List.replicate n []) ++ [']']) ∧
      parse s = .error (.error (.unreadableBoard (.malformed .trailingCharacters place))) ∧
      decode s = .error (.fault .tooBig) := by
  have hpips : ∀ row ∈ List.replicate m 0 :: List.replicate n [], ∀ k ∈ row, k < 2 ^ 32 := by
    intro row hrow k hk
    rcases List.mem_cons.1 hrow with rfl | hrow
    · rw [List.eq_of_mem_replicate hk]
      decide
    · rw [List.eq_of_mem_replicate hrow] at hk
      cases hk
  have hcols : ((List.replicate m 0 :: List.replicate n []).head?.map List.length).getD 0 = m := by
    simp
  have hrows : (List.replicate m 0 :: List.replicate n []).length = n + 1 := by
    simp
  obtain ⟨⟨place, hparse⟩, hdecode⟩ := of_oversized hpips hcols (hrows ▸ hsize) (hrows ▸ hword)
    String.toList_ofList
  exact ⟨_, place, rfl, hparse, hdecode⟩

/-- All ways to read a board give the same board or none. By itself and from a string a text is refused
for the same reason, as one value always as text that cannot be read: unless its rows have no room,
which those of a text of fewer than `2 ^ 30` characters have. All ways to write a board give its text. -/
theorem paths_agree :
    (∀ s, ofString s = parse s ∧ (¬ Oversized s →
      (∃ b, parse s = .ok b ∧ decode s = .ok b) ∨
      ∃ e failure, parse s = .error (.error e) ∧
        decode s = .error (.error (.unreadableBoard failure)) ∧ Reports s e failure)) ∧
    (∀ s, s.length < 2 ^ 30 → ¬ Oversized s) ∧
    ∀ b : Board, b.encode = b.text ∧ toString b = b.text ∧
      (b.rows < 2 ^ 64 → b.write = .ok b.text) :=
  ⟨fun _ => ⟨rfl, decode_cases⟩, fun _ hlength hsize => absurd hsize.le_length (Nat.not_le.2 hlength),
    fun b => ⟨encode_eq_text b, rfl, write_eq⟩⟩

/-- A row too long and a text too long, and a board without columns. -/
theorem paths_agree_two_rows :
    ¬ Oversized "[[1],[2,3]] x" ∧
      Reports "[[1],[2,3]] x" (.unreadableBoard (.malformed .trailingCharacters ⟨1, 13⟩))
        (.misshapen "row 1 has 2 cells, expected 1") ∧
      write ⟨2, 0, #[], rfl, by decide⟩ = .ok "[[],[]]" := by
  have hparse : parse "[[1],[2,3]] x" =
      .error (.error (.unreadableBoard (.malformed .trailingCharacters ⟨1, 13⟩))) := by
    rfl
  have hdecode : decode "[[1],[2,3]] x" =
      .error (.error (.unreadableBoard (.misshapen "row 1 has 2 cells, expected 1"))) := by
    rfl
  obtain ⟨hread, hshort, hwritten⟩ := paths_agree
  have hroom : ¬ Oversized "[[1],[2,3]] x" := hshort _ (by decide)
  refine ⟨hroom, ?_, (hwritten ⟨2, 0, #[], rfl, by decide⟩).2.2 (by decide)⟩
  rcases (hread "[[1],[2,3]] x").2 hroom with ⟨b, hb, -⟩ | ⟨e, failure, he, hfailure, hreports⟩
  · rw [hparse] at hb
    cases hb
  · rw [hparse] at he
    rw [hdecode] at hfailure
    cases he
    cases hfailure
    exact hreports

/-- A text that is refused by itself and stops the reading as one value: a row of `2 ^ 31` cells, as
many empty rows, and a bracket too many. -/
theorem decode_stops_without_room : ∃ s place,
    s = String.ofList (rowsText (List.replicate (2 ^ 31) 0 :: List.replicate (2 ^ 31) []) ++ [']']) ∧
      parse s = .error (.error (.unreadableBoard (.malformed .trailingCharacters place))) ∧
      decode s = .error (.fault .tooBig) :=
  of_long_first_row (by decide) (by decide)

end DominoTiling.Board
