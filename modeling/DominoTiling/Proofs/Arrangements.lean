import DominoTiling.Generator
import Mathlib.Data.List.Perm.Subperm
import Mathlib.Data.Nat.Factorial.Basic

/-!
# Orders of a list

What the generators do to a set of dominoes before they lay it out. A shuffle keeps the items of a
list, each as often as before (`perm_of_shuffle`), whatever words the source gives. An arrangement
of `k` items takes `k` of them, none more often than it stands in the list, and every such choice is
among the arrangements (`mem_arrangements_iff`). There are as many as there are ways to choose
(`length_arrangements`), and they come in lexicographic order (`pairwise_arrangements`).
-/

namespace DominoTiling

namespace WordSource
variable {α : Type} {s s' : WordSource}

theorem perm_swapIfInBounds (items : Array α) (i j : Nat) :
    (items.swapIfInBounds i j).Perm items := by
  rw [Array.swapIfInBounds_def]
  split
  · split
    · exact Array.swap_perm ..
    · exact .refl _
  · exact .refl _

theorem perm_of_shuffleUpTo {i : Nat} {items items' : Array α}
    (h : shuffleUpTo i items s = .ok (items', s')) : items'.Perm items := by
  induction i generalizing items s with
  | zero =>
    obtain ⟨rfl, -⟩ := Prod.mk.inj (Except.ok.inj h)
    exact .refl _
  | succ i ih =>
    obtain ⟨⟨j, s''⟩, -, h⟩ := bind_eq_ok_iff.1 h
    exact (ih h).trans (perm_swapIfInBounds items (i + 1) j)

theorem perm_of_shuffle {items items' : List α} (h : s.shuffle items = .ok (items', s')) :
    items'.Perm items := by
  obtain ⟨⟨shuffled, s''⟩, hs, h⟩ := bind_eq_ok_iff.1 h
  obtain ⟨rfl, -⟩ := Prod.mk.inj (Except.ok.inj h)
  exact (perm_of_shuffleUpTo hs).toList

end WordSource

namespace Generator
variable {α : Type} {as rest l : List α} {a : α}

/-- An item and the others are the whole list. -/
theorem perm_of_mem_picks (h : (a, rest) ∈ picks as) : (a :: rest).Perm as := by
  induction as generalizing rest with
  | nil => cases h
  | cons b bs ih =>
    rcases List.mem_cons.1 h with heq | h
    · obtain ⟨rfl, rfl⟩ := Prod.mk.inj heq
      exact .refl _
    · obtain ⟨⟨c, cs⟩, hc, heq⟩ := List.mem_map.1 h
      obtain ⟨rfl, rfl⟩ := Prod.mk.inj heq
      exact (List.Perm.swap b c cs).trans ((ih hc).cons b)

theorem length_of_mem_arrangements {k : Nat} (h : l ∈ arrangements k as) : l.length = k := by
  induction k generalizing as l with
  | zero =>
    obtain rfl := List.mem_singleton.1 h
    rfl
  | succ k ih =>
    obtain ⟨⟨a, rest⟩, -, h⟩ := List.mem_flatMap.1 h
    obtain ⟨l', hl', rfl⟩ := List.mem_map.1 h
    rw [List.length_cons, ih hl']

theorem subperm_of_mem_arrangements {k : Nat} (h : l ∈ arrangements k as) : l.Subperm as := by
  induction k generalizing as l with
  | zero =>
    obtain rfl := List.mem_singleton.1 h
    exact List.nil_subperm
  | succ k ih =>
    obtain ⟨⟨a, rest⟩, hpick, h⟩ := List.mem_flatMap.1 h
    obtain ⟨l', hl', rfl⟩ := List.mem_map.1 h
    exact ((List.subperm_cons a).2 (ih hl')).trans (perm_of_mem_picks hpick).subperm

theorem map_fst_picks (as : List α) : (picks as).map Prod.fst = as := by
  induction as with
  | nil => rfl
  | cons a as ih =>
    have hrest : ((picks as).map fun p => (p.1, a :: p.2)).map Prod.fst = as := by
      rw [List.map_map]
      exact ih
    rw [picks, List.map_cons, hrest]

theorem exists_pick (h : a ∈ as) : ∃ rest, (a, rest) ∈ picks as := by
  rw [← map_fst_picks as] at h
  obtain ⟨⟨b, rest⟩, hpick, rfl⟩ := List.mem_map.1 h
  exact ⟨rest, hpick⟩

theorem sublist_of_mem_picks (h : (a, rest) ∈ picks as) : rest.Sublist as := by
  induction as generalizing rest with
  | nil => cases h
  | cons b bs ih =>
    rcases List.mem_cons.1 h with heq | h
    · obtain ⟨rfl, rfl⟩ := Prod.mk.inj heq
      exact List.sublist_cons_self ..
    · obtain ⟨⟨c, cs⟩, hc, heq⟩ := List.mem_map.1 h
      obtain ⟨rfl, rfl⟩ := Prod.mk.inj heq
      exact (ih hc).cons_cons b

theorem mem_arrangements_iff {k : Nat} : l ∈ arrangements k as ↔ l.length = k ∧ l.Subperm as := by
  refine ⟨fun h => ⟨length_of_mem_arrangements h, subperm_of_mem_arrangements h⟩, ?_⟩
  rintro ⟨hlength, hsub⟩
  induction k generalizing as l with
  | zero =>
    rw [List.length_eq_zero_iff.1 hlength]
    exact List.mem_singleton_self []
  | succ k ih =>
    obtain ⟨a, l, rfl⟩ := List.exists_cons_of_length_eq_add_one hlength
    obtain ⟨rest, hpick⟩ := exists_pick (hsub.subset (List.mem_cons_self ..))
    have hrest : l.Subperm rest :=
      (List.subperm_cons a).1 (hsub.trans (perm_of_mem_picks hpick).symm.subperm)
    have hl : l ∈ arrangements k rest := ih (Nat.succ.inj hlength) hrest
    exact List.mem_flatMap.2 ⟨(a, rest), hpick, List.mem_map_of_mem hl⟩

theorem length_arrangements (k : Nat) (as : List α) :
    (arrangements k as).length = as.length.descFactorial k := by
  induction k generalizing as with
  | zero => rfl
  | succ k ih =>
    have hblock : ∀ p ∈ picks as, ((arrangements k p.2).map (p.1 :: ·)).length =
        (as.length - 1).descFactorial k := by
      intro p hp
      have hlength : p.2.length + 1 = as.length := (perm_of_mem_picks hp).length_eq
      rw [List.length_map, ih, ← hlength, Nat.add_sub_cancel]
    have hpicks : (picks as).length = as.length := by
      rw [← List.length_map (f := Prod.fst), map_fst_picks]
    have hsum : (arrangements (k + 1) as).length =
        as.length * (as.length - 1).descFactorial k := by
      rw [arrangements, List.length_flatMap, List.map_congr_left hblock, List.map_const',
        List.sum_replicate_nat, hpicks]
    rw [hsum]
    cases as with
    | nil => simp
    | cons a as => rw [List.length_cons, Nat.succ_descFactorial_succ, Nat.add_sub_cancel]

/-- Arrangements of an ascending list ascend, item by item from the front. -/
theorem pairwise_arrangements {r : α → α → Prop} (k : Nat) (h : as.Pairwise r) :
    (arrangements k as).Pairwise (List.Lex r) := by
  induction k generalizing as with
  | zero => exact List.pairwise_singleton ..
  | succ k ih =>
    refine List.pairwise_flatMap.2 ⟨?_, ?_⟩
    · rintro ⟨a, rest⟩ hpick
      have hrest := ih (h.sublist (sublist_of_mem_picks hpick))
      exact List.pairwise_map.2 (hrest.imp fun hlex => .cons hlex)
    · rw [← map_fst_picks as, List.pairwise_map] at h
      refine h.imp fun {p q} hpq l hl m hm => ?_
      obtain ⟨l, -, rfl⟩ := List.mem_map.1 hl
      obtain ⟨m, -, rfl⟩ := List.mem_map.1 hm
      exact .rel hpq

end Generator
end DominoTiling
