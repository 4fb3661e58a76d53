import DominoTiling.Proofs.Enumeration

/-!
# Walking whole permutations

The list of all boards is specified by a walk through every permutation of the whole set, in
lexicographic order: each is laid out, and a board is kept if its text was not seen before. Walking
only arrangements of the dominoes that a board takes gives the same list. Both lists have the
obtainable boards, since every choice of dominoes begins some permutation of the set. Both are in
ascending order, since what a permutation has behind the dominoes that a board takes is not seen, so
that permutations in order give boards in order, some of them many times.
-/

namespace DominoTiling.Generator
variable {rows cols : Nat} {set : List Domino} {walk : List (List Domino)} {laid : List Board}

/-- Every permutation of the set once, in lexicographic order. -/
structure FullWalk (set : List Domino) (walk : List (List Domino)) : Prop where
  mem_iff : ∀ ds, ds ∈ walk ↔ ds.Perm set
  ascending : walk.Pairwise (List.Lex Domino.Before)

/-- The boards of this size as they are specified: a walk through all permutations of the complete
set is laid out, and of boards with the same text the first is kept. -/
def Specified (rows cols : Nat) (boards : List Board) : Prop :=
  ∃ maxPips set walk laid, maxPipsFor rows cols = .ok maxPips ∧ Domino.completeSet maxPips = .ok set ∧
    FullWalk set walk ∧ LaidOut rows cols walk laid ∧ boards = firstSeen [] laid

theorem fullWalk_arrangements (hset : set.Pairwise Domino.Before) :
    FullWalk set (arrangements set.length set) where
  mem_iff ds := by
    rw [mem_arrangements_iff]
    exact ⟨fun ⟨hlength, hsub⟩ => hsub.perm_of_length_le (Nat.le_of_eq hlength.symm),
      fun hperm => ⟨hperm.length_eq, hperm.subperm⟩⟩
  ascending := pairwise_arrangements _ hset

namespace FullWalk

theorem exists_laid (h : FullWalk (Domino.upTo (max rows cols - 1)) walk)
    (hsize : Accepted rows cols) : ∃ laid, LaidOut rows cols walk laid := by
  refine exists_laidOut fun ds hds => exists_board_of_length hsize ?_
  rw [((h.mem_iff ds).1 hds).length_eq]
  exact needed_le ..

theorem mem_laid_iff {b : Board} (h : FullWalk (Domino.upTo (max rows cols - 1)) walk)
    (hsize : Accepted rows cols) (hlaid : LaidOut rows cols walk laid) :
    b ∈ laid ↔ Obtainable rows cols b := by
  constructor
  · intro hb
    obtain ⟨ds, hds, hboard⟩ := hlaid.exists_board hb
    exact obtainable_of_board hsize.cols_even ((h.mem_iff ds).1 hds).subperm hboard
  · intro hb
    obtain ⟨more, hperm⟩ := hb.exists_perm
    exact hlaid.mem ((h.mem_iff _).2 hperm) (hb.board_pairs_append hsize more)

theorem ascending_firstSeen (h : FullWalk set walk) (heven : cols % 2 = 0)
    (hlaid : LaidOut rows cols walk laid) : Ascending (firstSeen [] laid) :=
  Generator.ascending_firstSeen <| hlaid.pairwise h.ascending fun _ _ _ _ hlex _ _ hb hb' =>
    Layout.eq_or_lt_of_lex heven hb hb' hlex

/-- Keeping the first board of each text keeps all obtainable boards. -/
theorem mem_firstSeen_iff {b : Board} (h : FullWalk (Domino.upTo (max rows cols - 1)) walk)
    (hsize : Accepted rows cols) (hlaid : LaidOut rows cols walk laid) :
    b ∈ firstSeen [] laid ↔ Obtainable rows cols b := by
  have hiff : ∀ b, b ∈ laid ↔ Obtainable rows cols b := fun b => h.mem_laid_iff hsize hlaid
  constructor
  · intro hb
    exact (hiff b).1 ((firstSeen_sublist [] laid).subset hb)
  · intro hb
    -- A board with this text is kept, and it is this board.
    obtain ⟨b', hb', htext⟩ := exists_firstSeen ((hiff b).2 hb) List.not_mem_nil
    have hobtainable := (hiff b').1 ((firstSeen_sublist [] laid).subset hb')
    rwa [← hobtainable.text_inj hb hsize htext]

end FullWalk

/-- The boards that are specified are those that are listed, in the same order. -/
theorem enumerate_eq_specified (h : Listable rows cols) :
    ∃ s, enumerate rows cols = .ok s ∧
      ∀ boards, Specified rows cols boards ↔ boards = s.boards.toList := by
  have hsize := h.accepted
  have hpips := maxPipsFor_of_lt h.rows_pos h.cols_pos h.pips
  have hset := setFor_eq hsize
  obtain ⟨s, hs, hlisted, -⟩ := exists_enumerate_laid h
  have hsame : ∀ walk laid, FullWalk (Domino.upTo (max rows cols - 1)) walk →
      LaidOut rows cols walk laid → firstSeen [] laid = s.boards.toList := by
    intro walk laid hwalk hlaid
    -- Both lists have the same boards, and both ascend.
    refine (hwalk.ascending_firstSeen h.cols_even hlaid).eq_of_mem_iff
      (ascending_laid h.cols_even hlisted) fun b => ?_
    rw [hwalk.mem_firstSeen_iff hsize hlaid, mem_laid_iff hsize hlisted]
  refine ⟨s, hs, fun boards => ⟨?_, ?_⟩⟩
  · rintro ⟨maxPips, set, walk, laid, hmax, hcomplete, hwalk, hlaid, rfl⟩
    obtain rfl := Except.ok.inj (hpips.symm.trans hmax)
    obtain rfl := Domino.eq_upTo_of_completeSet hcomplete
    exact hsame walk laid hwalk hlaid
  · rintro rfl
    have hwalk := fullWalk_arrangements (Domino.pairwise_upTo (max rows cols - 1))
    obtain ⟨laid, hlaid⟩ := hwalk.exists_laid hsize
    have hlt : max rows cols - 1 < 2 ^ 32 - 1 := by
      have := h.pips
      have := h.rows_pos
      omega
    exact ⟨_, _, _, laid, hpips, Domino.completeSet_of_lt hlt hsize.set_bytes, hwalk, hlaid,
      (hsame _ laid hwalk hlaid).symm⟩

/-- Six permutations of three dominoes, two for each of the three boards with a single domino. -/
theorem enumerate_eq_specified_one_by_two :
    Listable 1 2 ∧ ∃ s, enumerate 1 2 = .ok s ∧
      s.boards.toList = [⟨1, 2, #[0, 0], rfl, by decide⟩, ⟨1, 2, #[0, 1], rfl, by decide⟩,
        ⟨1, 2, #[1, 1], rfl, by decide⟩] := by
  have h : Listable 1 2 := ⟨by decide, by decide, by decide, by decide, by decide⟩
  obtain ⟨s, hs, hspecified⟩ := enumerate_eq_specified h
  refine ⟨h, s, hs, ((hspecified _).1 ?_).symm⟩
  have hlaid : LaidOut 1 2 (arrangements 3 (Domino.upTo 1))
      [⟨1, 2, #[0, 0], rfl, by decide⟩, ⟨1, 2, #[0, 0], rfl, by decide⟩,
        ⟨1, 2, #[0, 1], rfl, by decide⟩, ⟨1, 2, #[0, 1], rfl, by decide⟩,
        ⟨1, 2, #[1, 1], rfl, by decide⟩, ⟨1, 2, #[1, 1], rfl, by decide⟩] :=
    .cons rfl <| .cons rfl <| .cons rfl <| .cons rfl <| .cons rfl <| .cons rfl .nil
  exact ⟨1, _, _, _, rfl, rfl, fullWalk_arrangements (Domino.pairwise_upTo 1), hlaid,
    by decide +kernel⟩

end DominoTiling.Generator
