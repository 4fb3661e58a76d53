import DominoTiling.Generator
import Mathlib.Data.List.Forall2
import Mathlib.Data.List.Nodup
import Mathlib.Order.Basic

/-!
# Boards not seen before

A survey lays out one list of dominoes after the other and keeps the boards whose text it has not
seen before (`boards_of_survey`). What it keeps is `firstSeen` of the boards that were laid out: part
of them in the same order, with every text once. So nothing is dropped where the texts are different
(`firstSeen_of_nodup`), and boards that come in ascending order, some of them several times, are left
in strictly ascending order (`ascending_firstSeen`).
-/

namespace DominoTiling.Generator
variable {rows cols : Nat} {b : Board} {ds : List Domino}

/-! ### First boards -/

/-- The boards of a list whose text was not seen before, where these texts were seen already. -/
def firstSeen : (seen : List String) → List Board → List Board
  | _, [] => []
  | seen, b :: bs =>
    if b.text ∈ seen then firstSeen seen bs else b :: firstSeen (b.text :: seen) bs

section
variable {bs : List Board} {seen : List String}

theorem firstSeen_sublist (seen : List String) (bs : List Board) :
    (firstSeen seen bs).Sublist bs := by
  induction bs generalizing seen with
  | nil => exact .slnil
  | cons b bs ih =>
    rw [firstSeen]
    split
    · exact (ih seen).cons b
    · exact (ih (b.text :: seen)).cons_cons b

theorem text_notMem_of_firstSeen (h : b ∈ firstSeen seen bs) : b.text ∉ seen := by
  induction bs generalizing seen with
  | nil => cases h
  | cons c bs ih =>
    rw [firstSeen] at h
    split at h
    · exact ih h
    · rename_i hc
      rcases List.mem_cons.1 h with rfl | h
      · exact hc
      · exact fun hb => ih h (List.mem_cons_of_mem _ hb)

theorem nodup_texts_firstSeen (seen : List String) (bs : List Board) :
    ((firstSeen seen bs).map Board.text).Nodup := by
  induction bs generalizing seen with
  | nil => exact List.nodup_nil
  | cons b bs ih =>
    rw [firstSeen]
    split
    · exact ih seen
    · refine List.nodup_cons.2 ⟨fun hmem => ?_, ih (b.text :: seen)⟩
      obtain ⟨c, hc, htext⟩ := List.mem_map.1 hmem
      exact text_notMem_of_firstSeen hc (htext ▸ List.mem_cons_self ..)

/-- Every text that is not seen yet is seen once. -/
theorem exists_firstSeen (hb : b ∈ bs) (hnew : b.text ∉ seen) :
    ∃ b' ∈ firstSeen seen bs, b'.text = b.text := by
  induction bs generalizing seen with
  | nil => cases hb
  | cons c bs ih =>
    rw [firstSeen]
    by_cases hc : c.text ∈ seen
    · rw [if_pos hc]
      rcases List.mem_cons.1 hb with rfl | hb
      · exact absurd hc hnew
      · exact ih hb hnew
    · rw [if_neg hc]
      by_cases hbc : b.text = c.text
      · exact ⟨c, List.mem_cons_self .., hbc.symm⟩
      · have hne : b ≠ c := fun h => hbc (h ▸ rfl)
        obtain ⟨b', hb', htext⟩ : ∃ b' ∈ firstSeen (c.text :: seen) bs, b'.text = b.text :=
          ih ((List.mem_cons.1 hb).resolve_left hne) (by simp [hbc, hnew])
        exact ⟨b', List.mem_cons_of_mem _ hb', htext⟩

theorem firstSeen_of_nodup (hbs : (bs.map Board.text).Nodup) (hnew : ∀ b ∈ bs, b.text ∉ seen) :
    firstSeen seen bs = bs := by
  induction bs generalizing seen with
  | nil => rfl
  | cons b bs ih =>
    obtain ⟨hb, hbs⟩ := List.nodup_cons.1 hbs
    rw [firstSeen, if_neg (hnew b (List.mem_cons_self ..)), ih hbs fun c hc => ?_]
    have htext : c.text ≠ b.text := fun h => hb (h ▸ List.mem_map_of_mem hc)
    simp [htext, hnew c (List.mem_cons_of_mem _ hc)]

end

/-! ### Boards in order -/

/-- In strictly ascending order of the cells, read row by row. -/
def Ascending (bs : List Board) : Prop := bs.Pairwise fun b b' => b.cells.toList < b'.cells.toList

section
variable {bs bs' : List Board}

theorem Ascending.nodup (h : Ascending bs) : bs.Nodup := by
  refine List.Pairwise.imp ?_ h
  rintro b _ hlt rfl
  exact List.lt_irrefl _ hlt

/-- Only one list has these boards in ascending order. -/
theorem Ascending.eq_of_mem_iff (h : Ascending bs) (h' : Ascending bs')
    (hmem : ∀ b, b ∈ bs ↔ b ∈ bs') : bs = bs' := by
  have hperm : bs.Perm bs' := (List.perm_ext_iff_of_nodup h.nodup h'.nodup).2 hmem
  refine List.Perm.eq_of_pairwise (fun b b' _ _ hlt hgt => ?_) h h' hperm
  exact absurd (List.lt_trans hlt hgt) (List.lt_irrefl _)

theorem ascending_firstSeen
    (h : bs.Pairwise fun b b' => b = b' ∨ b.cells.toList < b'.cells.toList) :
    Ascending (firstSeen [] bs) := by
  have hne : (firstSeen [] bs).Pairwise (· ≠ ·) := (nodup_texts_firstSeen [] bs).of_map _
  refine (hne.and (h.sublist (firstSeen_sublist [] bs))).imp ?_
  rintro b b' ⟨hne, heq | hlt⟩
  · exact absurd heq hne
  · exact hlt

end

/-! ### Boards laid out one by one -/

/-- The boards that lists of dominoes are laid out to, one by one. -/
abbrev LaidOut (rows cols : Nat) : List (List Domino) → List Board → Prop :=
  List.Forall₂ fun ds b => Layout.board rows cols ds = .ok b

section
variable {walk : List (List Domino)} {laid : List Board}

theorem exists_laidOut (h : ∀ ds ∈ walk, ∃ b, Layout.board rows cols ds = .ok b) :
    ∃ laid, LaidOut rows cols walk laid := by
  induction walk with
  | nil => exact ⟨[], .nil⟩
  | cons ds walk ih =>
    obtain ⟨b, hb⟩ := h ds (List.mem_cons_self ..)
    obtain ⟨laid, hlaid⟩ := ih fun es hes => h es (List.mem_cons_of_mem _ hes)
    exact ⟨b :: laid, .cons hb hlaid⟩

theorem LaidOut.exists_board (h : LaidOut rows cols walk laid) (hb : b ∈ laid) :
    ∃ ds ∈ walk, Layout.board rows cols ds = .ok b := by
  induction h with
  | nil => cases hb
  | cons hds _ ih =>
    rcases List.mem_cons.1 hb with rfl | hb
    · exact ⟨_, List.mem_cons_self .., hds⟩
    · obtain ⟨es, hes, hlaid⟩ := ih hb
      exact ⟨es, List.mem_cons_of_mem _ hes, hlaid⟩

theorem LaidOut.mem (h : LaidOut rows cols walk laid) (hds : ds ∈ walk)
    (hb : Layout.board rows cols ds = .ok b) : b ∈ laid := by
  induction h with
  | nil => cases hds
  | @cons es c _ _ hes _ ih =>
    rcases List.mem_cons.1 hds with rfl | hds
    · rw [Except.ok.inj (hes.symm.trans hb)]
      exact List.mem_cons_self ..
    · exact List.mem_cons_of_mem _ (ih hds)

/-- What holds of the boards of any two lists of dominoes in order holds of the boards in order. -/
theorem LaidOut.pairwise {r : List Domino → List Domino → Prop} {q : Board → Board → Prop}
    (h : LaidOut rows cols walk laid) (hwalk : walk.Pairwise r)
    (hrq : ∀ ds ∈ walk, ∀ es ∈ walk, r ds es → ∀ b b', Layout.board rows cols ds = .ok b →
      Layout.board rows cols es = .ok b' → q b b') : laid.Pairwise q := by
  induction h with
  | nil => exact .nil
  | @cons ds b walk laid hds hlaid ih =>
    obtain ⟨hfirst, hwalk⟩ := List.pairwise_cons.1 hwalk
    refine List.pairwise_cons.2 ⟨fun b' hb' => ?_, ih hwalk fun es hes fs hfs =>
      hrq es (List.mem_cons_of_mem _ hes) fs (List.mem_cons_of_mem _ hfs)⟩
    obtain ⟨es, hes, hboard⟩ := LaidOut.exists_board hlaid hb'
    exact hrq ds (List.mem_cons_self ..) es (List.mem_cons_of_mem _ hes) (hfirst es hes) b b' hds
      hboard

end

/-! ### Surveys -/

namespace Survey
variable {s : Survey} {seen : List String}

/-- The texts of the boards met are these. -/
def Knows (s : Survey) (seen : List String) : Prop := ∀ t, s.seen.contains t = true ↔ t ∈ seen

theorem knows_start : start.Knows [] := fun _ => by simp [start]

theorem knows_toList (s : Survey) : s.Knows s.seen.toList := fun _ => by simp

theorem Knows.meet_of_mem (h : s.Knows seen) (hb : b.text ∈ seen) :
    (s.meet b).boards = s.boards ∧ (s.meet b).Knows seen := by
  have hknown : s.seen.contains b.text = true := (h b.text).2 hb
  unfold meet
  simp only [hknown, ↓reduceIte, true_and]
  exact h

theorem Knows.meet_of_notMem (h : s.Knows seen) (hb : b.text ∉ seen) :
    (s.meet b).boards = s.boards.push b ∧ (s.meet b).Knows (b.text :: seen) := by
  have hnew : s.seen.contains b.text = false := Bool.eq_false_iff.2 fun hc => hb ((h b.text).1 hc)
  unfold meet
  simp only [hnew, Bool.false_eq_true, ↓reduceIte, true_and]
  intro t
  rw [Std.HashSet.contains_insert, Bool.or_eq_true, h t, beq_iff_eq, List.mem_cons, eq_comm]

end Survey

section
variable {walk : List (List Domino)} {s s' : Survey} {seen : List String}

/-- A survey keeps what it has not seen before. -/
theorem boards_of_survey (h : survey rows cols walk s = .ok s') (hknows : s.Knows seen) :
    ∃ laid, LaidOut rows cols walk laid ∧
      s'.boards.toList = s.boards.toList ++ firstSeen seen laid := by
  -- What is known grows with every new board, so the texts are general in the induction.
  induction walk generalizing s seen with
  | nil =>
    obtain rfl := Except.ok.inj h
    exact ⟨[], .nil, (List.append_nil _).symm⟩
  | cons ds walk ih =>
    obtain ⟨b, hb, h⟩ := bind_eq_ok_iff.1 h
    by_cases hb' : b.text ∈ seen
    · obtain ⟨hboards, hknows⟩ := hknows.meet_of_mem hb'
      obtain ⟨laid, hlaid, hkept⟩ := ih h hknows
      refine ⟨b :: laid, .cons hb hlaid, ?_⟩
      rw [hkept, hboards, firstSeen, if_pos hb']
    · obtain ⟨hboards, hknows⟩ := hknows.meet_of_notMem hb'
      obtain ⟨laid, hlaid, hkept⟩ := ih h hknows
      refine ⟨b :: laid, .cons hb hlaid, ?_⟩
      rw [hkept, hboards, firstSeen, if_neg hb', Array.toList_push, List.append_assoc]
      rfl

/-- A board that was met came of one of the lists. -/
theorem mem_boards_of_survey (h : survey rows cols walk s = .ok s') (hb : b ∈ s'.boards) :
    b ∈ s.boards ∨ ∃ ds ∈ walk, Layout.board rows cols ds = .ok b := by
  obtain ⟨laid, hlaid, hboards⟩ := boards_of_survey h s.knows_toList
  rw [← Array.mem_toList_iff, hboards, List.mem_append, Array.mem_toList_iff] at hb
  exact hb.imp_right fun hnew => hlaid.exists_board ((firstSeen_sublist ..).subset hnew)

/-- A board laid out from one of the lists was met, or another one with its text. -/
theorem exists_met (h : survey rows cols walk .start = .ok s') (hds : ds ∈ walk)
    (hb : Layout.board rows cols ds = .ok b) : ∃ b' ∈ s'.boards, b'.text = b.text := by
  obtain ⟨laid, hlaid, hboards⟩ := boards_of_survey h Survey.knows_start
  obtain ⟨b', hb', htext⟩ := exists_firstSeen (hlaid.mem hds hb) List.not_mem_nil
  refine ⟨b', ?_, htext⟩
  rw [← Array.mem_toList_iff, hboards]
  exact List.mem_append_right _ hb'

theorem exists_survey (h : ∀ ds ∈ walk, ∃ b, Layout.board rows cols ds = .ok b) :
    ∃ s', survey rows cols walk s = .ok s' ∧ s'.walked = s.walked + walk.length := by
  induction walk generalizing s with
  | nil => exact ⟨s, rfl, rfl⟩
  | cons ds walk ih =>
    obtain ⟨b, hb⟩ := h ds (List.mem_cons_self ..)
    obtain ⟨s', hs', hwalked⟩ := ih (s := s.meet b) fun es hes => h es (List.mem_cons_of_mem _ hes)
    refine ⟨s', ?_, ?_⟩
    · rw [survey, hb]
      exact hs'
    · rw [hwalked, List.length_cons]
      show s.walked + 1 + walk.length = _
      omega

end

end DominoTiling.Generator
