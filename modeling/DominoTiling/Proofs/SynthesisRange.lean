import DominoTiling.Proofs.Draws
import DominoTiling.Proofs.Enumeration

/-!
# What synthesis can make

Whatever words it is given, synthesis lays out some order of the complete set, so the board is an
obtainable one. Conversely the column pairs of an obtainable board begin some order of the set, and
that order is the shuffle of the set by some words. So the boards that synthesis can make are those
that are listed.
-/

namespace DominoTiling.Generator
variable {rows cols : Nat} {b : Board} {source source' : WordSource}

theorem obtainable_of_synthesize (hsize : Accepted rows cols)
    (h : synthesize rows cols source = .ok (b, source')) : Obtainable rows cols b := by
  obtain ⟨items, hperm, hlaid⟩ := board_of_synthesize hsize h
  exact obtainable_of_board hsize.cols_even hperm.subperm hlaid

/-- Synthesis of an accepted size fails only with a source that the shuffle gets no end with. -/
theorem eq_noDraw_of_synthesize {f : Failure} (hsize : Accepted rows cols)
    (h : synthesize rows cols source = .error f) : f = .fault .noDraw := by
  rw [synthesize_eq hsize] at h
  rcases bind_eq_error_iff.1 h with hshuffle | ⟨⟨items, source'⟩, hshuffle, h⟩
  · cases hresult : source.shuffle (Domino.upTo (max rows cols - 1)) with
    | error fault =>
      rw [hresult, WordSource.eq_noDraw_of_shuffle hresult] at hshuffle
      exact (Except.error.inj hshuffle).symm
    | ok r =>
      rw [hresult] at hshuffle
      cases hshuffle
  · obtain ⟨b, hb⟩ := exists_synthesize hsize (liftM_eq_ok_iff.1 hshuffle)
    rw [synthesize_eq hsize, hshuffle] at hb
    cases h.symm.trans hb

theorem Obtainable.exists_synthesize (h : Obtainable rows cols b) (hsize : Accepted rows cols)
    (hset : (Domino.upTo (max rows cols - 1)).length < 2 ^ 32) :
    ∃ words, ∀ state, synthesize rows cols ⟨words, state⟩ = .ok (b, ⟨[], state⟩) := by
  obtain ⟨more, hperm⟩ := h.exists_perm
  obtain ⟨words, hwords⟩ := WordSource.exists_shuffle (by omega) hperm
  refine ⟨words, fun state => ?_⟩
  rw [synthesize_eq hsize, hwords state]
  show (Layout.board rows cols (Layout.pairs b ++ more) >>= _) = _
  rw [h.board_pairs_append hsize more]
  rfl

/-- A board can be made from some words if and only if it is listed. -/
theorem synthesize_range_eq_enumerate (h : Listable rows cols)
    (hset : max rows cols * (max rows cols + 1) / 2 < 2 ^ 32) :
    ∃ s, enumerate rows cols = .ok s ∧
      (∀ source b source', synthesize rows cols source = .ok (b, source') → b ∈ s.boards) ∧
      (∀ source f, synthesize rows cols source = .error f → f = .fault .noDraw) ∧
      ∀ b ∈ s.boards, ∃ words, ∀ state,
        synthesize rows cols ⟨words, state⟩ = .ok (b, ⟨[], state⟩) := by
  have hsize := h.accepted
  rw [← length_set h.rows_pos] at hset
  obtain ⟨s, hs, hlaid, -⟩ := exists_enumerate_laid h
  have hmem : ∀ b, b ∈ s.boards ↔ Obtainable rows cols b := fun b => mem_boards_iff hsize hlaid
  refine ⟨s, hs, fun source b source' hb => ?_, fun source f => eq_noDraw_of_synthesize hsize,
    fun b hb => ?_⟩
  · exact (hmem b).2 (obtainable_of_synthesize hsize hb)
  · exact ((hmem b).1 hb).exists_synthesize hsize hset

/-- A shuffle that refuses its first word, and the board it leads to. -/
theorem synthesize_range_eq_enumerate_two_by_two :
    Listable 2 2 ∧ 2 * 3 / 2 < 2 ^ 32 ∧ ∃ s b source', enumerate 2 2 = .ok s ∧
      synthesize 2 2 ⟨[4294967295, 0, 2147483648], 0⟩ = .ok (b, source') ∧ b ∈ s.boards ∧
      ∃ words, ∀ state, synthesize 2 2 ⟨words, state⟩ = .ok (b, ⟨[], state⟩) := by
  have h : Listable 2 2 := ⟨by decide, by decide, by decide, by decide, by decide⟩
  have hset : max 2 2 * (max 2 2 + 1) / 2 < 2 ^ 32 := by decide
  obtain ⟨s, hs, hmade, -, hlisted⟩ := synthesize_range_eq_enumerate h hset
  have hsynthesize : synthesize 2 2 ⟨[4294967295, 0, 2147483648], 0⟩ =
      .ok (⟨2, 2, #[1, 1, 0, 1], rfl, by decide⟩, ⟨[], 0⟩) := by
    rfl
  have hmem := hmade _ _ _ hsynthesize
  exact ⟨h, hset, s, _, _, hs, hsynthesize, hmem, hlisted _ hmem⟩

end DominoTiling.Generator
