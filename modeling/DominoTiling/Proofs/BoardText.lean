import DominoTiling.Board

/-!
# Reading a board text back

A text of rows is a list of tokens: brackets, commas and whole numbers. `Spaced tokens text` says
that the text consists of these tokens with any blank space around them, the text of a board being
the case without any (`flatten_boardTokens`). A reader `Takes` the tokens of a value if it finds
that value in every text that begins with them, and leaves a text of the tokens after them. Numbers
are taken (`takes_pips`), sequences of what is taken are taken (`takes_sequence`), and so are the
rows of a board (`readRows_of_spaced`). A board is read back from its own text (`Board.parse_text`).
-/

namespace DominoTiling.BoardText
open Text (isDigit digitValue)
variable {c : Char} {text rest ds : List Char} {n : Nat}

/-! ### Numbers -/

theorem isDigit_of_mem_toDigits (h : c ∈ Nat.toDigits 10 n) : isDigit c = true :=
  Nat.isDigit_of_mem_toDigits (by decide) (by decide) h

theorem isSpace_of_isDigit (h : isDigit c = true) : isSpace c = false := by
  rw [Bool.eq_false_iff]
  intro hc
  simp only [isSpace, Bool.or_eq_true, beq_iff_eq] at hc
  rcases hc with ((rfl | rfl) | rfl) | rfl <;> exact absurd h (by decide)

theorem ofDigitChars_digitValue :
    Nat.ofDigitChars 10 (c :: ds) n = Nat.ofDigitChars 10 ds (n * 10 + digitValue c) := by
  rw [Nat.ofDigitChars_cons, Nat.mul_comm, digitValue]

theorem le_ofDigitChars : n ≤ Nat.ofDigitChars 10 ds n := by
  induction ds generalizing n with
  | nil => exact Nat.le_refl n
  | cons c ds ih =>
    rw [Nat.ofDigitChars_cons]
    exact Nat.le_trans (by omega) ih

/-- No number goes on at the start of the text. -/
def NumberEnds (rest : List Char) : Prop :=
  ∀ c ∈ rest.head?, isDigit c = false ∧ c ≠ '.' ∧ c ≠ 'e' ∧ c ≠ 'E'

theorem NumberEnds.startsWithDigit (h : NumberEnds rest) : startsWithDigit rest = false := by
  cases rest with
  | nil => rfl
  | cons c rest => exact (h c rfl).1

theorem gatherDigits_append {limit count : Nat} (hds : ∀ c ∈ ds, isDigit c = true)
    (hlt : Nat.ofDigitChars 10 ds n < limit) (hrest : NumberEnds rest) :
    gatherDigits limit n count (ds ++ rest) =
      (Nat.ofDigitChars 10 ds n, count + ds.length, rest) := by
  induction ds generalizing n count with
  | nil =>
    cases rest with
    | nil => rfl
    | cons c rest => simp [gatherDigits, (hrest c rfl).1, Nat.ofDigitChars]
  | cons c ds ih =>
    rw [ofDigitChars_digitValue] at hlt
    have hn : n * 10 + digitValue c < limit := Nat.lt_of_le_of_lt le_ofDigitChars hlt
    have hc := hds c (List.mem_cons_self ..)
    rw [List.cons_append, gatherDigits, if_pos (by simp [hc, hn]),
      ih (fun d hd => hds d (List.mem_cons_of_mem _ hd)) hlt, ofDigitChars_digitValue,
      List.length_cons]
    congr 2
    omega

/-- The digits of a number other than zero do not begin with one. -/
theorem exists_toDigits (h : 0 < n) : ∃ c cs, Nat.toDigits 10 n = c :: cs ∧ c ≠ '0' := by
  induction n using Nat.strongRecOn with
  | ind n ih =>
    rw [Nat.toDigits_eq_if (by decide)]
    split
    · rename_i hlt
      refine ⟨_, _, rfl, ?_⟩
      have hdigits : ∀ m : Nat, m < 10 → 0 < m → m.digitChar ≠ '0' := by decide
      exact hdigits n hlt h
    · obtain ⟨c, cs, hcs, hc⟩ := ih (n / 10) (by omega) (by omega)
      exact ⟨c, cs ++ [(n % 10).digitChar], by rw [hcs]; rfl, hc⟩

theorem readAfterWhole_of_ends (h : NumberEnds rest) :
    readAfterWhole false n rest = .ok (.natural n, rest) := by
  unfold readAfterWhole
  split
  · exact absurd rfl (h _ rfl).2.1
  · exact absurd rfl (h _ rfl).2.2.1
  · exact absurd rfl (h _ rfl).2.2.2
  · rfl

theorem readMagnitude_toDigits (hn : n < significandLimit) (hrest : NumberEnds rest) :
    readMagnitude false (Nat.toDigits 10 n ++ rest) = .ok (.natural n, rest) := by
  rcases Nat.eq_zero_or_pos n with rfl | hpos
  · show readMagnitude false ('0' :: rest) = _
    rw [readMagnitude, hrest.startsWithDigit]
    exact readAfterWhole_of_ends hrest
  · obtain ⟨c, cs, hcs, hc⟩ := exists_toDigits hpos
    have hdigit : ∀ d ∈ c :: cs, isDigit d = true := fun d hd => isDigit_of_mem_toDigits (hcs ▸ hd)
    have hvalue : Nat.ofDigitChars 10 cs (digitValue c) = n := by
      have h := Nat.ofDigitChars_toDigits (b := 10) (n := n) (by decide) (by decide)
      rwa [hcs, ofDigitChars_digitValue, Nat.zero_mul, Nat.zero_add] at h
    rw [hcs, List.cons_append, readMagnitude, if_pos (hdigit c (List.mem_cons_self ..)),
      gatherDigits_append (fun d hd => hdigit d (List.mem_cons_of_mem _ hd)) (by rwa [hvalue]) hrest,
      hvalue]
    · dsimp only
      rw [hrest.startsWithDigit]
      exact readAfterWhole_of_ends hrest
    · rintro rfl
      exact hc rfl

theorem readNumber_toDigits (hn : n < significandLimit) (hrest : NumberEnds rest) :
    readNumber (Nat.toDigits 10 n ++ rest) = .ok (.natural n, rest) := by
  unfold readNumber
  split
  · rename_i rest' h
    have hmem : '-' ∈ Nat.toDigits 10 n := by
      cases hds : Nat.toDigits 10 n with
      | nil => exact absurd hds Nat.toDigits_ne_nil
      | cons c cs =>
        rw [hds] at h
        rw [(List.cons.inj h).1]
        exact List.mem_cons_self ..
    exact absurd (isDigit_of_mem_toDigits hmem) (by decide)
  · exact readMagnitude_toDigits hn hrest

/-! ### Tokens -/

theorem skipSpace_append {blank : List Char} (h : ∀ c ∈ blank, isSpace c = true) :
    skipSpace (blank ++ text) = skipSpace text :=
  List.dropWhile_append_of_pos h

theorem skipSpace_cons (h : isSpace c = false) : skipSpace (c :: rest) = c :: rest :=
  List.dropWhile_cons_of_neg (by rw [h]; decide)

/-- The text consists of these tokens, with any blank space before and after each. -/
inductive Spaced : List (List Char) → List Char → Prop where
  | done {blank : List Char} : (∀ c ∈ blank, isSpace c = true) → Spaced [] blank
  | token {blank rest t : List Char} {ts : List (List Char)} :
      (∀ c ∈ blank, isSpace c = true) → Spaced ts rest → Spaced (t :: ts) (blank ++ (t ++ rest))

variable {t cs : List Char} {ts more tokens : List (List Char)}

theorem Spaced.skipSpace_nil (h : Spaced [] text) : skipSpace text = [] := by
  cases h with
  | done hblank =>
    rw [← List.append_nil text, skipSpace_append hblank]
    rfl

/-- The next token stands where the blank space ends. -/
theorem Spaced.exists_rest (h : Spaced ((c :: cs) :: ts) text) (hc : isSpace c = false) :
    ∃ rest, skipSpace text = c :: (cs ++ rest) ∧ Spaced ts rest := by
  cases h with
  | token hblank hrest => exact ⟨_, by rw [skipSpace_append hblank]; exact skipSpace_cons hc, hrest⟩

theorem Spaced.of_eq (h : text = t ++ rest) (hrest : Spaced ts rest) : Spaced (t :: ts) text := by
  have htoken : Spaced (t :: ts) ([] ++ (t ++ rest)) := .token (fun _ hc => nomatch hc) hrest
  rwa [List.nil_append, ← h] at htoken

theorem Spaced.flatten (ts : List (List Char)) : Spaced ts ts.flatten := by
  induction ts with
  | nil => exact .done fun _ hc => nomatch hc
  | cons t ts ih => exact .of_eq List.flatten_cons ih

theorem Spaced.length_le (h : Spaced ts text) : ts.flatten.length ≤ text.length := by
  induction h with
  | done => exact Nat.zero_le _
  | token _ _ ih =>
    rw [List.flatten_cons, List.length_append, List.length_append, List.length_append]
    omega

/-- What stands after a value: the end of the text, a comma or a bracket that closes. -/
def Ends (ts : List (List Char)) : Prop :=
  ∀ t ∈ ts.head?, t = [','] ∨ t = [']']

theorem Ends.numberEnds (h : Ends ts) (htext : Spaced ts text) : NumberEnds text := by
  have hspace : ∀ c, isSpace c = true → isDigit c = false ∧ c ≠ '.' ∧ c ≠ 'e' ∧ c ≠ 'E' := by
    intro c hc
    simp only [isSpace, Bool.or_eq_true, beq_iff_eq] at hc
    rcases hc with ((rfl | rfl) | rfl) | rfl <;> decide
  intro c hc
  cases htext with
  | done hblank => exact hspace c (hblank c (List.mem_of_mem_head? hc))
  | @token blank rest t ts hblank _ =>
    cases blank with
    | cons d blank =>
      obtain rfl := Option.some.inj hc
      exact hspace d (hblank d (List.mem_cons_self ..))
    | nil =>
      rcases h t rfl with rfl | rfl
      · obtain rfl := Option.some.inj hc
        decide
      · obtain rfl := Option.some.inj hc
        decide

/-! ### Readers that take tokens -/

/-- In a text that begins with the tokens, the reader finds the value and leaves the tokens after
them. The first token is seen for what it is. -/
structure Takes {α : Type} (element : List Char → Except Stop (α × List Char)) (a : α)
    (tokens : List (List Char)) : Prop where
  starts : ∃ c cs ts, tokens = (c :: cs) :: ts ∧ isSpace c = false ∧ c ≠ ']'
  takes : ∀ more text, Ends more → Spaced (tokens ++ more) text →
    ∃ rest, element text = .ok (a, rest) ∧ Spaced more rest

theorem takes_pips (steps : Nat) (hn : n < 2 ^ 32) : Takes (readPips steps) n [Nat.toDigits 10 n] := by
  obtain ⟨c, cs, hcs⟩ := List.exists_cons_of_ne_nil (Nat.toDigits_ne_nil (n := n) (b := 10))
  have hdigit : isDigit c = true := isDigit_of_mem_toDigits (hcs ▸ List.mem_cons_self ..)
  have hspace : isSpace c = false := isSpace_of_isDigit hdigit
  refine ⟨⟨c, cs, [], by rw [hcs], hspace, ?_⟩, fun more text hends htext => ?_⟩
  · rintro rfl
    exact absurd hdigit (by decide)
  · rw [hcs] at htext
    obtain ⟨rest, hskip, hrest⟩ := htext.exists_rest hspace
    refine ⟨rest, ?_, hrest⟩
    have hnumber := readNumber_toDigits (n := n) (by unfold significandLimit; omega)
      (hends.numberEnds hrest)
    rw [hcs, List.cons_append] at hnumber
    rw [readPips, hskip]
    dsimp only
    rw [if_pos (by simp [hdigit]), hnumber]
    show (if n < 2 ^ 32 then _ else _) = _
    rw [if_pos hn]
    rfl

section
variable {α : Type} {element : List Char → Except Stop (α × List Char)} {a : α} {as : List α}
  {steps : Nat} {itemTokens : α → List (List Char)}

/-- A taken value stands where the blank space ends. -/
theorem Takes.exists_next (h : Takes element a tokens) (hends : Ends more)
    (htext : Spaced (tokens ++ more) text) :
    ∃ c cs next, skipSpace text = c :: cs ∧ c ≠ ']' ∧ element (c :: cs) = .ok (a, next) ∧
      Spaced more next := by
  obtain ⟨c, cs, ts, rfl, hspace, hclose⟩ := h.starts
  obtain ⟨rest, hskip, hrest⟩ := htext.exists_rest hspace
  obtain ⟨next, hread, hnext⟩ := h.takes more (c :: (cs ++ rest)) hends (.of_eq rfl hrest)
  exact ⟨c, cs ++ rest, next, hskip, hclose, hread, hnext⟩

/-- The tokens of the items after the first one, and the bracket that closes. -/
def tailTokens (itemTokens : α → List (List Char)) (as : List α) : List (List Char) :=
  (as.flatMap fun a => [','] :: itemTokens a) ++ [[']']]

/-- The tokens of a sequence with these tokens for its items. -/
def sequenceTokens (itemTokens : α → List (List Char)) : List α → List (List Char)
  | [] => [['['], [']']]
  | a :: as => ['['] :: (itemTokens a ++ tailTokens itemTokens as)

theorem ends_tailTokens : Ends (tailTokens itemTokens as ++ more) := by
  cases as with
  | nil => exact fun t ht => .inr (Option.some.inj ht).symm
  | cons a as => exact fun t ht => .inl (Option.some.inj ht).symm

theorem readElements_close (h : skipSpace text = ']' :: rest) :
    readElements element (steps + 1) text = .ok ([], rest) := by
  simp only [readElements, h]

theorem readElements_comma {next stop : List Char} (h : skipSpace text = ',' :: rest)
    (hrest : skipSpace rest = c :: cs) (hc : c ≠ ']') (ha : element (c :: cs) = .ok (a, next))
    (has : readElements element steps next = .ok (as, stop)) :
    readElements element (steps + 1) text = .ok (a :: as, stop) := by
  simp only [readElements, h, hrest, bind, Except.bind, pure, Except.pure]
  split
  · rename_i heq
    cases heq
  · rename_i heq
    exact absurd (List.cons.inj heq).1 hc
  · simp only [ha, has]

theorem readElements_of_spaced (h : ∀ a ∈ as, Takes element a (itemTokens a))
    (hsteps : as.length < steps) (htext : Spaced (tailTokens itemTokens as ++ more) text) :
    ∃ rest, readElements element steps text = .ok (as, rest) ∧ Spaced more rest := by
  induction as generalizing steps text with
  | nil =>
    obtain ⟨steps, rfl⟩ := Nat.exists_eq_succ_of_ne_zero (Nat.ne_zero_of_lt hsteps)
    obtain ⟨rest, hskip, hrest⟩ := Spaced.exists_rest htext (by decide)
    exact ⟨rest, readElements_close hskip, hrest⟩
  | cons a as ih =>
    obtain ⟨steps, rfl⟩ := Nat.exists_eq_succ_of_ne_zero (Nat.ne_zero_of_lt hsteps)
    have htokens : tailTokens itemTokens (a :: as) ++ more =
        [','] :: (itemTokens a ++ (tailTokens itemTokens as ++ more)) := by
      simp [tailTokens]
    rw [htokens] at htext
    obtain ⟨rest, hskip, hrest⟩ := htext.exists_rest (by decide)
    obtain ⟨c, cs, next, hitem, hc, ha, hnext⟩ :=
      (h a (List.mem_cons_self ..)).exists_next ends_tailTokens hrest
    obtain ⟨stop, has, hstop⟩ := ih (fun b hb => h b (List.mem_cons_of_mem _ hb))
      (Nat.lt_of_succ_lt_succ hsteps) hnext
    exact ⟨stop, readElements_comma hskip hitem hc ha has, hstop⟩

/-- A sequence is taken if its items are. -/
theorem takes_sequence (h : ∀ a ∈ as, Takes element a (itemTokens a)) (hsteps : as.length ≤ steps) :
    Takes (readSequence element steps) as (sequenceTokens itemTokens as) := by
  cases as with
  | nil =>
    refine ⟨⟨'[', [], [[']']], rfl, by decide, by decide⟩, fun more text _ htext => ?_⟩
    obtain ⟨rest, hopen, hrest⟩ := Spaced.exists_rest htext (by decide)
    obtain ⟨stop, hclose, hstop⟩ := Spaced.exists_rest hrest (by decide)
    rw [List.nil_append] at hopen hclose
    exact ⟨stop, by simp only [readSequence, hopen, hclose], hstop⟩
  | cons a as =>
    refine ⟨⟨'[', [], _, rfl, by decide, by decide⟩, fun more text _ htext => ?_⟩
    rw [sequenceTokens, List.cons_append, List.append_assoc] at htext
    obtain ⟨rest, hopen, hrest⟩ := htext.exists_rest (by decide)
    obtain ⟨c, cs, next, hitem, hc, ha, hnext⟩ :=
      (h a (List.mem_cons_self ..)).exists_next ends_tailTokens hrest
    obtain ⟨stop, has, hstop⟩ := readElements_of_spaced
      (fun b hb => h b (List.mem_cons_of_mem _ hb)) hsteps hnext
    refine ⟨stop, ?_, hstop⟩
    rw [List.nil_append] at hopen
    simp only [readSequence, hopen, hitem, bind, Except.bind, pure, Except.pure]
    split
    · rename_i heq
      cases heq
    · rename_i heq
      exact absurd (List.cons.inj heq).1 hc
    · simp only [ha, has]

theorem intercalate_cons (item : List Char) (items : List (List Char)) :
    [','].intercalate (item :: items) = item ++ items.flatMap (',' :: ·) := by
  induction items generalizing item with
  | nil => simp [List.intercalate]
  | cons next items ih => rw [List.intercalate_cons_cons, ih, List.flatMap_cons]; simp

theorem flatten_sequenceTokens :
    (sequenceTokens itemTokens as).flatten =
      Board.bracketed (as.map fun a => (itemTokens a).flatten) := by
  have hitems : ∀ as : List α, (as.flatMap fun a => [','] :: itemTokens a).flatten =
      (as.map fun a => (itemTokens a).flatten).flatMap (',' :: ·) := by
    intro as
    induction as with
    | nil => rfl
    | cons a as ih =>
      rw [List.flatMap_cons, List.flatten_append, ih, List.map_cons, List.flatMap_cons]
      rfl
  cases as with
  | nil => rfl
  | cons a as =>
    rw [List.map_cons, Board.bracketed, intercalate_cons, ← hitems as, sequenceTokens, tailTokens]
    simp

theorem length_le_sequenceTokens : as.length ≤ (sequenceTokens itemTokens as).flatten.length := by
  rw [flatten_sequenceTokens, Board.bracketed]
  cases as with
  | nil => exact Nat.zero_le _
  | cons a as =>
    have hcommas : ∀ items : List (List Char), items.length ≤ (items.flatMap (',' :: ·)).length := by
      intro items
      induction items with
      | nil => exact Nat.zero_le _
      | cons item items ih =>
        rw [List.flatMap_cons, List.length_append, List.length_cons, List.length_cons]
        omega
    have hle := hcommas (as.map fun a => (itemTokens a).flatten)
    rw [List.length_map] at hle
    simp only [List.map_cons, intercalate_cons, List.length_append, List.length_cons]
    omega

theorem length_item_le_sequenceTokens (ha : a ∈ as) :
    (itemTokens a).flatten.length ≤ (sequenceTokens itemTokens as).flatten.length := by
  obtain ⟨before, after, rfl⟩ := List.append_of_mem ha
  cases before with
  | nil =>
    simp only [List.nil_append, sequenceTokens, List.flatten_cons, List.flatten_append,
      List.length_append]
    omega
  | cons b before =>
    simp only [List.cons_append, sequenceTokens, tailTokens, List.flatMap_append, List.flatMap_cons,
      List.flatten_cons, List.flatten_append, List.length_append, List.length_cons]
    omega

end

/-! ### Rows -/

/-- The tokens of a text of rows. -/
def rowsTokens (rows : List (List Nat)) : List (List Char) :=
  sequenceTokens (sequenceTokens fun n => [Nat.toDigits 10 n]) rows

theorem flatten_rowsTokens (rows : List (List Nat)) :
    (rowsTokens rows).flatten = Board.rowsText rows := by
  rw [rowsTokens, flatten_sequenceTokens, Board.rowsText]
  congr 2
  funext row
  rw [flatten_sequenceTokens]
  congr 2
  funext n
  exact List.append_nil _

variable {rows : List (List Nat)}

theorem ends_nil : Ends [] := fun _ ht => nomatch ht

theorem readRows_of_spaced (hpips : ∀ row ∈ rows, ∀ n ∈ row, n < 2 ^ 32) (hends : Ends more)
    (htext : Spaced (rowsTokens rows ++ more) text) :
    ∃ rest, readRows text = .ok (rows, rest) ∧ Spaced more rest := by
  have hlength := htext.length_le
  rw [List.flatten_append, List.length_append] at hlength
  have htokens := Nat.le_trans (Nat.le_add_right ..) hlength
  have hrow : ∀ row ∈ rows, Takes (readSequence (readPips text.length) text.length) row
      (sequenceTokens (fun n => [Nat.toDigits 10 n]) row) := by
    intro row hmem
    refine takes_sequence (fun n hn => takes_pips text.length (hpips row hmem n hn)) ?_
    exact Nat.le_trans length_le_sequenceTokens
      (Nat.le_trans (length_item_le_sequenceTokens hmem) htokens)
  exact (takes_sequence hrow (Nat.le_trans length_le_sequenceTokens htokens)).takes more text hends htext

theorem readEnd_of_spaced (h : Spaced [] rest) : readEnd rest = .ok () := by
  rw [readEnd, h.skipSpace_nil]

theorem exists_stop_of_spaced (h : Spaced ((c :: cs) :: ts) rest) (hc : isSpace c = false) :
    ∃ stop, readEnd rest = .error stop ∧ stop.cause = .trailingCharacters := by
  obtain ⟨rest', hskip, -⟩ := h.exists_rest hc
  rw [readEnd, hskip]
  exact ⟨_, rfl, rfl⟩

end DominoTiling.BoardText

namespace DominoTiling.Board
variable {rows : List (List Nat)} {cols : Nat} {b : Board}

/-- Rows of pip counts are read from every text of their tokens, whatever the blank space. What
becomes of them is left to `ofRows`. -/
theorem parse_of_spaced {s : String} (hpips : ∀ row ∈ rows, ∀ n ∈ row, n < 2 ^ 32)
    (hs : BoardText.Spaced (BoardText.rowsTokens rows) s.toList) : parse s = ofRows rows := by
  obtain ⟨rest, hrows, hrest⟩ := BoardText.readRows_of_spaced hpips BoardText.ends_nil
    (by rwa [List.append_nil])
  rw [parse, hrows]
  show (atPlace s.toList (BoardText.readEnd rest) >>= _) = _
  rw [BoardText.readEnd_of_spaced hrest]
  rfl

theorem ofRows_of_rectangle (hne : rows ≠ []) (hcols : 1 ≤ cols)
    (hlength : ∀ r ∈ rows, r.length = cols) (hbytes : 4 * (rows.length * cols) < 2 ^ 63) :
    ∃ b, ofRows rows = .ok b ∧ b.rows = rows.length ∧ b.cols = cols ∧
      b.cells.toList = rows.flatten := by
  have hhead : (rows.head?.map List.length).getD 0 = cols := by
    cases rows with
    | nil => exact absurd rfl hne
    | cons r rows => exact hlength r (List.mem_cons_self ..)
  have hfind : rows.findIdx? (fun r => r.length != cols) = none := by
    rw [List.findIdx?_eq_none_iff]
    intro r hr
    simp [hlength r hr]
  unfold ofRows
  simp only [hhead]
  have hrows := List.length_pos_iff.2 hne
  rw [if_neg (by omega), dif_pos (by omega), allocate_of_lt hbytes, liftM_ok]
  simp only [pure, Except.pure, bind, Except.bind]
  split
  · rename_i i hi
    rw [hhead, hfind] at hi
    cases hi
  · exact ⟨_, rfl, rfl, rfl, rfl⟩

theorem ofRows_toRows (hrows : 1 ≤ b.rows) (hcols : 1 ≤ b.cols)
    (hbytes : 4 * (b.rows * b.cols) < 2 ^ 63) : ofRows b.toRows = .ok b := by
  have hne : b.toRows ≠ [] := List.ne_nil_of_length_pos (by rw [Grid.length_toRows]; exact hrows)
  obtain ⟨b', hb', hr, hc, hcells⟩ := ofRows_of_rectangle hne hcols
    (fun r => Grid.length_of_mem_toRows) (by rwa [Grid.length_toRows])
  rw [Grid.length_toRows] at hr
  rw [Grid.flatten_toRows] at hcells
  rw [hb', Grid.ext_cells hr hc fun k => by rw [Array.toList_inj.1 hcells]]

theorem toList_text (b : Board) : b.text.toList = (BoardText.rowsTokens b.toRows).flatten := by
  rw [text, String.toList_ofList, BoardText.flatten_rowsTokens]

theorem pips_toRows (hpips : ∀ n ∈ b.cells, n < 2 ^ 32) : ∀ row ∈ b.toRows, ∀ n ∈ row, n < 2 ^ 32 := by
  intro row hrow n hn
  refine hpips n (Array.mem_toList_iff.1 ?_)
  rw [← Grid.flatten_toRows]
  exact List.mem_flatten.2 ⟨row, hrow, hn⟩

/-- A board is read back from its text. -/
theorem parse_text (hrows : 1 ≤ b.rows) (hcols : 1 ≤ b.cols)
    (hbytes : 4 * (b.rows * b.cols) < 2 ^ 63) (hpips : ∀ n ∈ b.cells, n < 2 ^ 32) :
    parse b.text = .ok b := by
  have htext : BoardText.Spaced (BoardText.rowsTokens b.toRows) b.text.toList :=
    b.toList_text ▸ .flatten _
  rw [parse_of_spaced (pips_toRows hpips) htext, ofRows_toRows hrows hcols hbytes]

end DominoTiling.Board
