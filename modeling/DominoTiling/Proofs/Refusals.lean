import DominoTiling.Proofs.Draws
import DominoTiling.Proofs.Enumeration

/-!
# Sizes that are refused

`refusal` says what is wrong with a size: a side without cells, more cells than a word counts, an odd
number of cells, an odd number of columns, a longer side whose pips need more than 32 bits, in this
order. Synthesis and enumeration refuse a size before they do anything else, and with this error
(`setFor_of_refusal`). For all other sizes there are enough dominoes, since a set grows with the
square of the longer side (`needed_le`), so no supply ever runs out. What can still be in the way is
storage, a shuffle that does not end, and the count of the arrangements (`generators_outcome`).

The longer side `2 ^ 32` is left out: no size with it is refused for its pips, but the size of its set
cannot be computed.
-/

namespace DominoTiling.Generator
variable {rows cols : Nat} {e : PuzzleError} {f : Failure} {source : WordSource}
  {items : List Domino}

def refusal (rows cols : Nat) : Option PuzzleError :=
  if rows = 0 ∨ cols = 0 then some (.nonPositiveDimensions rows cols)
  else if 2 ^ 64 ≤ rows * cols then some (.tooLarge rows cols)
  else if rows % 2 = 1 ∧ cols % 2 = 1 then some (.oddCellCount rows cols)
  else if cols % 2 = 1 then some (.oddColumnCount rows cols)
  else if 2 ^ 32 < max rows cols then some (.tooLarge rows cols)
  else none

/-- A block of storage can hold the complete set for the size, and another one the board while it is
filled. -/
structure Room (rows cols : Nat) : Prop where
  set_bytes : 8 * (Domino.upTo (max rows cols - 1)).length < 2 ^ 63
  board_bytes : 8 * (rows * cols) < 2 ^ 63

theorem odd_mul_iff : rows * cols % 2 ≠ 0 ↔ rows % 2 = 1 ∧ cols % 2 = 1 := by
  rw [← Nat.odd_iff, ← Nat.odd_iff, ← Nat.odd_mul, Nat.odd_iff]
  omega

theorem isConfiguration_of_refusal (h : refusal rows cols = some e) : e.isConfiguration = true := by
  unfold refusal at h
  split_ifs at h <;> cases h <;> rfl

theorem dimensions_of_refusal (h : refusal rows cols = none) :
    checkDimensions rows cols = .ok () ∧ max rows cols ≤ 2 ^ 32 := by
  unfold refusal at h
  split_ifs at h with hzero hcells hodd hcols hpips
  exact ⟨checkDimensions_eq_ok_iff.2 ⟨by omega, by omega, by omega, by omega⟩, by omega⟩

theorem setFor_of_checkDimensions (h : checkDimensions rows cols = .error e) :
    setFor rows cols = .error (.error e) := by
  rw [setFor, h]
  rfl

theorem setFor_of_refusal (h : refusal rows cols = some e) :
    setFor rows cols = .error (.error e) := by
  unfold refusal at h
  split_ifs at h with hzero hcells hodd hcols hpips
  all_goals obtain rfl := Option.some.inj h
  · exact setFor_of_checkDimensions (by rw [checkDimensions, if_pos hzero])
  · exact setFor_of_checkDimensions (by rw [checkDimensions, if_neg hzero, if_pos hcells])
  · refine setFor_of_checkDimensions ?_
    rw [checkDimensions, if_neg hzero, if_neg hcells, if_pos (odd_mul_iff.2 hodd)]
  · refine setFor_of_checkDimensions ?_
    rw [checkDimensions, if_neg hzero, if_neg hcells, if_neg (mt odd_mul_iff.1 hodd),
      if_pos (by omega)]
  · have hdimensions : checkDimensions rows cols = .ok () :=
      checkDimensions_eq_ok_iff.2 ⟨by omega, by omega, by omega, by omega⟩
    rw [setFor, hdimensions, maxPipsFor, if_neg hzero, if_neg (by omega)]
    rfl

theorem synthesize_of_setFor_error (h : setFor rows cols = .error f) :
    synthesize rows cols source = .error f := by
  rw [synthesize, h]
  rfl

theorem enumerate_of_setFor_error (h : setFor rows cols = .error f) :
    enumerate rows cols = .error f := by
  rw [enumerate, h]
  rfl

/-! ### Sizes that are not refused -/

theorem setFor_of_pips (hdimensions : checkDimensions rows cols = .ok ())
    (hpips : max rows cols < 2 ^ 32) :
    setFor rows cols = .ok (Domino.upTo (max rows cols - 1)) ∨
      (setFor rows cols = .error (.fault .tooBig) ∧ ¬ Room rows cols) := by
  have hrows := (checkDimensions_eq_ok_iff.1 hdimensions).1
  have hlt : max rows cols - 1 < 2 ^ 32 - 1 := by omega
  rw [setFor_of_dimensions hdimensions (Nat.le_of_lt hpips)]
  rcases Domino.completeSet_cases hlt with hset | ⟨hset, hbytes⟩
  · rw [hset]
    exact .inl rfl
  · rw [hset]
    exact .inr ⟨rfl, fun hroom => Nat.not_lt.2 hbytes hroom.set_bytes⟩

/-- Enough dominoes are laid out to a board of the size, or there is no room for it. -/
theorem board_of_dimensions (hdimensions : checkDimensions rows cols = .ok ())
    (henough : rows * cols / 2 ≤ items.length) :
    (∃ b, Layout.board rows cols items = .ok b ∧ b.rows = rows ∧ b.cols = cols) ∨
      (Layout.board rows cols items = .error (.fault .tooBig) ∧ ¬ Room rows cols) := by
  obtain ⟨-, -, hword, heven⟩ := checkDimensions_eq_ok_iff.1 hdimensions
  rcases Nat.lt_or_ge (8 * (rows * cols)) (2 ^ 63) with hbytes | hbytes
  · obtain ⟨b, hb⟩ := Layout.exists_board hbytes ((mul_half heven).symm ▸ henough)
    obtain ⟨-, hrows, hcols, -⟩ := Layout.of_board hb
    exact .inl ⟨b, hb, hrows, hcols⟩
  · refine .inr ⟨Layout.board_of_le hword hbytes, ?_⟩
    intro hroom
    exact Nat.not_lt.2 hbytes hroom.board_bytes

theorem board_of_perm (hdimensions : checkDimensions rows cols = .ok ())
    (hperm : items.Perm (Domino.upTo (max rows cols - 1))) :
    (∃ b, Layout.board rows cols items = .ok b ∧ b.rows = rows ∧ b.cols = cols) ∨
      (Layout.board rows cols items = .error (.fault .tooBig) ∧ ¬ Room rows cols) :=
  board_of_dimensions hdimensions (hperm.length_eq ▸ needed_le rows cols)

theorem synthesize_of_pips (hdimensions : checkDimensions rows cols = .ok ())
    (hpips : max rows cols < 2 ^ 32) (source : WordSource) :
    (∃ b source', synthesize rows cols source = .ok (b, source') ∧ b.rows = rows ∧ b.cols = cols) ∨
      (synthesize rows cols source = .error (.fault .noDraw) ∧
        source.shuffle (Domino.upTo (max rows cols - 1)) = .error .noDraw) ∨
      (synthesize rows cols source = .error (.fault .tooBig) ∧ ¬ Room rows cols) := by
  rcases setFor_of_pips hdimensions hpips with hset | ⟨hset, hroom⟩
  · rw [synthesize_of_setFor hset]
    cases hshuffle : source.shuffle (Domino.upTo (max rows cols - 1)) with
    | error fault =>
      rw [WordSource.eq_noDraw_of_shuffle hshuffle]
      exact .inr (.inl ⟨rfl, rfl⟩)
    | ok r =>
      obtain ⟨items, source'⟩ := r
      show (∃ b source'', (Layout.board rows cols items >>= _) = _ ∧ _) ∨ _
      rcases board_of_perm hdimensions (WordSource.perm_of_shuffle hshuffle) with
        ⟨b, hb, hshape⟩ | ⟨hb, hroom⟩
      · refine .inl ⟨b, source', ?_, hshape⟩
        rw [hb]
        rfl
      · refine .inr (.inr ⟨?_, hroom⟩)
        show (Layout.board rows cols items >>= _) = _
        rw [hb]
        rfl
  · exact .inr (.inr ⟨synthesize_of_setFor_error hset, hroom⟩)

/-- The arrangements of the set for a size, as many dominoes as the board takes. -/
def walk (rows cols : Nat) : List (List Domino) :=
  arrangements (rows * cols / 2) (Domino.upTo (max rows cols - 1))

theorem walk_ne_nil (rows cols : Nat) : walk rows cols ≠ [] := by
  intro hnil
  have hlength := length_arrangements (rows * cols / 2) (Domino.upTo (max rows cols - 1))
  rw [show arrangements _ _ = [] from hnil, List.length_nil, eq_comm,
    Nat.descFactorial_eq_zero_iff_lt] at hlength
  exact Nat.not_lt.2 (needed_le rows cols) hlength

theorem boards_of_walk {s : Survey} (hs : survey rows cols (walk rows cols) .start = .ok s) :
    0 < s.boards.size ∧ ∀ b ∈ s.boards, b.rows = rows ∧ b.cols = cols := by
  constructor
  · obtain ⟨laid, hlaid, hboards⟩ := boards_of_survey hs Survey.knows_start
    obtain ⟨b, hb⟩ : ∃ b, b ∈ laid := by
      refine List.exists_mem_of_ne_nil _ fun hnil => walk_ne_nil rows cols ?_
      rw [← List.length_eq_zero_iff, hlaid.length_eq, hnil, List.length_nil]
    obtain ⟨b', hb', -⟩ : ∃ b' ∈ firstSeen [] laid, b'.text = b.text :=
      exists_firstSeen hb List.not_mem_nil
    have hmem : b' ∈ s.boards.toList := by
      rw [hboards]
      exact List.mem_append_right _ hb'
    rw [← Array.length_toList]
    exact List.length_pos_of_mem hmem
  · intro b hb
    rcases mem_boards_of_survey hs hb with hstart | ⟨ds, -, hlaid⟩
    · exact absurd hstart (Array.not_mem_empty b)
    · obtain ⟨-, hrows, hcols, -⟩ := Layout.of_board hlaid
      exact ⟨hrows, hcols⟩

theorem survey_of_first {ds : List Domino} {walk : List (List Domino)} {s : Survey}
    (h : Layout.board rows cols ds = .error f) : survey rows cols (ds :: walk) s = .error f := by
  rw [survey, h]
  rfl

/-- The boards of a size are listed if there is room for one of them; only the number of arrangements
can then be too large. -/
theorem enumerate_of_pips (hdimensions : checkDimensions rows cols = .ok ())
    (hpips : max rows cols < 2 ^ 32) :
    (∃ s, survey rows cols (walk rows cols) .start = .ok s ∧ s.walked = walkLength rows cols ∧
      enumerate rows cols =
        if walkLength rows cols < 2 ^ 64 then .ok s else .error (.fault .overflow)) ∨
      (enumerate rows cols = .error (.fault .tooBig) ∧ ¬ Room rows cols) := by
  obtain ⟨hrows, -, hword, heven⟩ := checkDimensions_eq_ok_iff.1 hdimensions
  rcases setFor_of_pips hdimensions hpips with hset | ⟨hset, hroom⟩
  · have henumerate : enumerate rows cols = (survey rows cols (walk rows cols) .start >>= fun s =>
        (liftM (word s.walked) : Except Failure Nat) >>= fun _ => .ok s) :=
      enumerate_of_setFor hset (needed_le rows cols)
    -- There is room for the set. All boards have one size, so there is room for each or for none.
    rcases Nat.lt_or_ge (8 * (rows * cols)) (2 ^ 63) with hbytes | hbytes
    · have hlaid : ∀ ds ∈ walk rows cols, ∃ b, Layout.board rows cols ds = .ok b := by
        intro ds hds
        refine Layout.exists_board hbytes ?_
        rw [mul_half heven, length_of_mem_arrangements hds]
      obtain ⟨s, hs, hwalked⟩ := exists_survey (s := .start) hlaid
      have hlength : s.walked = walkLength rows cols := by
        rw [hwalked, walkLength_eq hrows]
        exact Nat.zero_add _
      refine .inl ⟨s, hs, hlength, ?_⟩
      rw [henumerate, hs, ← hlength]
      show ((liftM (word s.walked) : Except Failure Nat) >>= _) = _
      split
      · rw [word_of_lt (by assumption)]
        rfl
      · rw [word_of_le (by omega)]
        rfl
    · obtain ⟨ds, rest, hwalk⟩ := List.exists_cons_of_ne_nil (walk_ne_nil rows cols)
      refine .inr ⟨?_, fun hroom => Nat.not_lt.2 hbytes hroom.board_bytes⟩
      rw [henumerate, hwalk, survey_of_first (Layout.board_of_le hword hbytes)]
      rfl
  · exact .inr ⟨enumerate_of_setFor_error hset, hroom⟩

/-! ### All sizes -/

theorem refusal_of_error (hside : max rows cols ≠ 2 ^ 32)
    (h : synthesize rows cols source = .error (.error e) ∨ enumerate rows cols = .error (.error e)) :
    refusal rows cols = some e := by
  cases hrefusal : refusal rows cols with
  | some e' =>
    have hset := setFor_of_refusal hrefusal
    rcases h with h | h
    · rw [synthesize_of_setFor_error hset] at h
      cases h
      rfl
    · rw [enumerate_of_setFor_error hset] at h
      cases h
      rfl
  | none =>
    obtain ⟨hdimensions, hle⟩ := dimensions_of_refusal hrefusal
    have hpips : max rows cols < 2 ^ 32 := by omega
    exfalso
    rcases h with h | h
    · rcases synthesize_of_pips hdimensions hpips source with
        ⟨b, source', hb, -⟩ | ⟨hb, -⟩ | ⟨hb, -⟩
      all_goals
        rw [hb] at h
        cases h
    · rcases enumerate_of_pips hdimensions hpips with ⟨s, -, -, hs⟩ | ⟨hs, -⟩
      · rw [hs] at h
        split at h
        all_goals cases h
      · rw [hs] at h
        cases h

/-- Synthesis and enumeration refuse the same sizes, each with the error that `refusal` gives, and
make boards of every other size, out of any order of the set, as far as storage, the shuffle and the
count of the arrangements allow. Their dominoes never run out, and every error is about the request. -/
theorem generators_outcome (hside : max rows cols ≠ 2 ^ 32) (source : WordSource) :
    (∀ e, refusal rows cols = some e →
      synthesize rows cols source = .error (.error e) ∧ enumerate rows cols = .error (.error e)) ∧
    (refusal rows cols = none →
      ((∃ b source', synthesize rows cols source = .ok (b, source') ∧
          b.rows = rows ∧ b.cols = cols) ∨
        (synthesize rows cols source = .error (.fault .noDraw) ∧
          source.shuffle (Domino.upTo (max rows cols - 1)) = .error .noDraw) ∨
        (synthesize rows cols source = .error (.fault .tooBig) ∧ ¬ Room rows cols)) ∧
      (∀ items, items.Perm (Domino.upTo (max rows cols - 1)) →
        (∃ b, Layout.board rows cols items = .ok b ∧ b.rows = rows ∧ b.cols = cols) ∨
        (Layout.board rows cols items = .error (.fault .tooBig) ∧ ¬ Room rows cols)) ∧
      ((∃ s, survey rows cols (walk rows cols) .start = .ok s ∧ s.walked = walkLength rows cols ∧
          0 < s.boards.size ∧ (∀ b ∈ s.boards, b.rows = rows ∧ b.cols = cols) ∧
          enumerate rows cols =
            if walkLength rows cols < 2 ^ 64 then .ok s else .error (.fault .overflow)) ∨
        (enumerate rows cols = .error (.fault .tooBig) ∧ ¬ Room rows cols))) ∧
    rows * cols / 2 ≤ (Domino.upTo (max rows cols - 1)).length ∧
    ∀ e, synthesize rows cols source = .error (.error e) ∨
        enumerate rows cols = .error (.error e) →
      e.isConfiguration = true ∧ ∀ placed r c, e ≠ .exhausted placed r c := by
  refine ⟨fun e hrefusal => ?_, fun hrefusal => ?_, needed_le rows cols, fun e he => ?_⟩
  · have hset := setFor_of_refusal hrefusal
    exact ⟨synthesize_of_setFor_error hset, enumerate_of_setFor_error hset⟩
  · obtain ⟨hdimensions, hle⟩ := dimensions_of_refusal hrefusal
    have hpips : max rows cols < 2 ^ 32 := by omega
    refine ⟨synthesize_of_pips hdimensions hpips source, fun items => board_of_perm hdimensions, ?_⟩
    rcases enumerate_of_pips hdimensions hpips with ⟨s, hs, hwalked, henumerate⟩ | hfull
    · obtain ⟨hsome, hshape⟩ := boards_of_walk hs
      exact .inl ⟨s, hs, hwalked, hsome, hshape, henumerate⟩
    · exact .inr hfull
  · have hconfiguration := isConfiguration_of_refusal (refusal_of_error hside he)
    refine ⟨hconfiguration, ?_⟩
    rintro placed r c rfl
    cases hconfiguration

/-- A board with an odd number of columns is refused; one of two cells is made, and there is a list of
such boards. -/
theorem generators_outcome_by_columns :
    (∀ source, synthesize 4 7 source = .error (.error (.oddColumnCount 4 7)) ∧
      enumerate 4 7 = .error (.error (.oddColumnCount 4 7))) ∧
    (∃ b source', synthesize 1 2 ⟨[2863311531, 2147483648], 0⟩ = .ok (b, source') ∧
      b.rows = 1 ∧ b.cols = 2) ∧
    ∃ s, enumerate 1 2 = .ok s ∧ ∀ b ∈ s.boards, b.rows = 1 ∧ b.cols = 2 := by
  have hroom : Room 1 2 := ⟨by decide, by decide⟩
  have hshuffle : WordSource.shuffle ⟨[2863311531, 2147483648], 0⟩ (Domino.upTo (max 1 2 - 1)) =
      .ok ([⟨0, 0⟩, ⟨0, 1⟩, ⟨1, 1⟩], ⟨[], 0⟩) := by
    rfl
  have hside : max 1 2 ≠ 2 ^ 32 := by decide
  obtain ⟨hmade, -, hlisted⟩ :=
    (generators_outcome hside ⟨[2863311531, 2147483648], 0⟩).2.1 rfl
  refine ⟨fun source => (generators_outcome (by decide) source).1 _ rfl, ?_, ?_⟩
  · rcases hmade with hmade | ⟨-, hnone⟩ | ⟨-, hfull⟩
    · exact hmade
    · rw [hshuffle] at hnone
      cases hnone
    · exact absurd hroom hfull
  · rcases hlisted with ⟨s, -, -, -, hshape, hs⟩ | ⟨-, hfull⟩
    · rw [if_pos (by decide)] at hs
      exact ⟨s, hs, hshape⟩
    · exact absurd hroom hfull

end DominoTiling.Generator
