import DominoTiling.Proofs.Arrangements

/-!
# What a shuffle can give

Every number below a bound that a word can hold is drawn from some words: from one whose product with
the bound is the least to reach the number, since that product ends less than one bound further on,
well within what is taken. From the last position down a shuffle fixes one item a time, and each can
be any of those not fixed yet. So every order of a list is the shuffle of it by some words
(`exists_shuffle`). A shuffle fails only where a source goes on without a word that can be used.
-/

namespace DominoTiling.WordSource
variable {bound i j v : Nat}

/-! ### Draws -/

theorem le_zone (w : Width) (bound : Nat) : bound ≤ w.zone bound + 1 := by
  have hpow : 1 ≤ Nat.pow 2 (w.bits - 1 - bound.log2) := Nat.one_le_two_pow
  have hle : bound * 1 ≤ bound * Nat.pow 2 (w.bits - 1 - bound.log2) := Nat.mul_le_mul_left bound hpow
  rw [Width.zone]
  omega

theorem le_count (hbound : bound ≤ 2 ^ 64) : bound ≤ (Width.forBound bound).count := by
  rw [Width.forBound]
  split
  · rename_i hlt
    exact Nat.le_of_lt hlt
  · exact hbound

/-- The word drawn from: the least one whose product with the bound is at least `j * w.count`. -/
theorem exists_word (w : Width) (hj : j < bound) (hbound : bound ≤ w.count) :
    ∃ v < w.count, v * bound / w.count = j ∧ v * bound % w.count ≤ w.zone bound := by
  have hpos : 0 < bound := by omega
  have hzone := le_zone w bound
  generalize w.count = count at hbound ⊢
  generalize hq : (j * count + (bound - 1)) / bound = q
  have hupper : q * bound ≤ j * count + (bound - 1) := hq ▸ Nat.div_mul_le_self ..
  have hlower : j * count ≤ q * bound := by
    have hlt := Nat.lt_div_mul_add (a := j * count + (bound - 1)) hpos
    rw [hq] at hlt
    omega
  have hfits : q < count := by
    have hlast : (j + 1) * count ≤ bound * count := Nat.mul_le_mul_right _ hj
    rw [Nat.succ_mul, Nat.mul_comm bound] at hlast
    exact Nat.lt_of_mul_lt_mul_right (a := bound) (by omega)
  obtain ⟨r, hr⟩ := Nat.exists_eq_add_of_le hlower
  have hrest : r < count := by omega
  refine ⟨q, hfits, ?_, ?_⟩
  · rw [hr, Nat.mul_comm, Nat.mul_add_div (Nat.zero_lt_of_lt hrest), Nat.div_eq_of_lt hrest,
      Nat.add_zero]
  · rw [hr, Nat.mul_comm, Nat.mul_add_mod, Nat.mod_eq_of_lt hrest]
    omega

/-- A source can begin with any word of a width. -/
theorem exists_take (w : Width) (hv : v < w.count) :
    ∃ words, ∀ more state, take w ⟨words ++ more, state⟩ = (v, ⟨more, state⟩) := by
  cases w with
  | narrow =>
    refine ⟨[UInt32.ofNat v], fun more state => ?_⟩
    have hlow : (UInt32.ofNat v).toNat = v := UInt32.toNat_ofNat_of_lt' hv
    simp only [take, next, List.cons_append, List.nil_append, hlow]
  | wide =>
    have hlt : v < 2 ^ 64 := hv
    have hlow : (UInt32.ofNat (v % 2 ^ 32)).toNat = v % 2 ^ 32 :=
      UInt32.toNat_ofNat_of_lt' (Nat.mod_lt _ (by decide))
    have hhigh : (UInt32.ofNat (v / 2 ^ 32)).toNat = v / 2 ^ 32 :=
      UInt32.toNat_ofNat_of_lt' (Nat.div_lt_of_lt_mul (by omega))
    refine ⟨[UInt32.ofNat (v % 2 ^ 32), UInt32.ofNat (v / 2 ^ 32)], fun more state => ?_⟩
    simp only [take, next, List.cons_append, List.nil_append, hlow, hhigh, Nat.div_add_mod']

theorem exists_draw (hj : j < bound) (hbound : bound ≤ 2 ^ 64) :
    ∃ words, ∀ more state, draw ⟨words ++ more, state⟩ bound = .ok (j, ⟨more, state⟩) := by
  obtain ⟨v, hv, hdrawn, hzone⟩ := exists_word (.forBound bound) hj (le_count hbound)
  obtain ⟨words, hwords⟩ := exists_take (.forBound bound) hv
  refine ⟨words, fun more state => ?_⟩
  obtain ⟨attempts, hpatience⟩ : ∃ attempts, patience ⟨words ++ more, state⟩ = attempts + 1 :=
    Nat.exists_eq_succ_of_ne_zero (Nat.ne_of_gt (Nat.lt_add_left _ (by decide)))
  rw [draw, hpatience, drawWithin, hwords]
  simp only [hzone, ↓reduceIte, hdrawn]

theorem eq_noDraw_of_draw {s : WordSource} {f : Fault} (h : s.draw bound = .error f) :
    f = .noDraw := by
  unfold draw at h
  generalize s.patience = attempts at h
  induction attempts generalizing s with
  | zero => exact (Except.error.inj h).symm
  | succ attempts ih =>
    rw [drawWithin] at h
    dsimp only at h
    split at h
    · cases h
    · exact ih h

/-! ### Shuffles -/

section
variable {α : Type} {l m : List α} {items target : Array α} {t : α}

/-- Lists of the same items that go on in the same way have the same items in front. -/
theorem perm_take {n : Nat} (h : l.Perm m) (hsame : ∀ k, n ≤ k → l[k]? = m[k]?) :
    (l.take n).Perm (m.take n) := by
  have hdrop : l.drop n = m.drop n := List.ext_getElem? fun k => by
    rw [List.getElem?_drop, List.getElem?_drop, hsame (n + k) (Nat.le_add_right ..)]
  rw [← List.take_append_drop n l, ← List.take_append_drop n m, hdrop] at h
  exact (List.perm_append_right_iff _).1 h

theorem eq_of_perm_of_tail (h : l.Perm m) (hsame : ∀ k, 1 ≤ k → l[k]? = m[k]?) : l = m := by
  have hfirst := perm_take h hsame
  refine List.ext_getElem? fun k => ?_
  rcases Nat.eq_zero_or_pos k with rfl | hk
  · cases l with
    | nil => rw [List.nil_perm.1 h]
    | cons a l =>
      cases m with
      | nil => cases List.perm_nil.1 h
      | cons b m =>
        rw [List.take_succ_cons, List.take_succ_cons, List.take_zero, List.take_zero,
          List.perm_singleton] at hfirst
        rw [List.getElem?_cons_zero, List.getElem?_cons_zero, (List.cons.inj hfirst).1]
  · exact hsame k hk

/-- The item that belongs at a position is one of those up to it. -/
theorem exists_source (h : items.Perm target) (hsame : ∀ k, i < k → items[k]? = target[k]?)
    (ht : target[i]? = some t) : ∃ j ≤ i, items[j]? = some t := by
  have hperm := perm_take (n := i + 1) h.toList fun k hk => by
    rw [Array.getElem?_toList, Array.getElem?_toList, hsame k hk]
  have hmem : t ∈ target.toList.take (i + 1) := by
    rw [List.mem_iff_getElem?]
    exact ⟨i, by rw [List.getElem?_take_of_lt (Nat.lt_succ_self i), Array.getElem?_toList, ht]⟩
  obtain ⟨j, hj⟩ := List.mem_iff_getElem?.1 (hperm.mem_iff.2 hmem)
  rw [List.getElem?_take] at hj
  split at hj
  · exact ⟨j, by omega, by rwa [Array.getElem?_toList] at hj⟩
  · cases hj

theorem getElem?_swapIfInBounds {k : Nat} (hi : i < items.size) (hj : j ≤ i) (hk : i ≤ k) :
    (items.swapIfInBounds i j)[k]? = if k = i then items[j]? else items[k]? := by
  have hj' : j < items.size := Nat.lt_of_le_of_lt hj hi
  rw [Array.swapIfInBounds_def, dif_pos hi, dif_pos hj', Array.getElem?_swap]
  by_cases hki : k = i
  · subst hki
    rw [if_pos rfl, if_pos rfl, Array.getElem?_eq_getElem hj']
    split
    · rename_i hjk
      simp only [hjk]
    · rfl
  · rw [if_neg hki, if_neg (by omega), if_neg (by omega)]

/-- Each item can be brought to its place in turn. -/
theorem exists_shuffleUpTo (hi : i ≤ items.size - 1) (hbound : i < 2 ^ 64)
    (h : items.Perm target) (hsame : ∀ k, i < k → items[k]? = target[k]?) :
    ∃ words, ∀ more state,
      shuffleUpTo i items ⟨words ++ more, state⟩ = .ok (target, ⟨more, state⟩) := by
  -- The positions behind `i` have their items already; the step gives position `i + 1` its own.
  induction i generalizing items with
  | zero =>
    have heq : items = target := Array.toList_inj.1 (eq_of_perm_of_tail h.toList fun k hk => by
      rw [Array.getElem?_toList, Array.getElem?_toList, hsame k hk])
    exact ⟨[], fun more state => by rw [heq]; rfl⟩
  | succ i ih =>
    have hsize : i + 1 < items.size := by omega
    obtain ⟨t, ht⟩ : ∃ t, target[i + 1]? = some t :=
      ⟨_, Array.getElem?_eq_getElem (h.size_eq ▸ hsize)⟩
    obtain ⟨j, hj, hjt⟩ := exists_source h hsame ht
    have hsame' : ∀ k, i < k → (items.swapIfInBounds (i + 1) j)[k]? = target[k]? := by
      intro k hk
      rw [getElem?_swapIfInBounds hsize hj hk]
      split
      · rename_i hki
        rw [hki, hjt, ht]
      · exact hsame k (by omega)
    have hsize' : i ≤ (items.swapIfInBounds (i + 1) j).size - 1 := by
      rw [Array.size_swapIfInBounds]
      omega
    obtain ⟨words, hwords⟩ := ih hsize' (by omega) ((perm_swapIfInBounds ..).trans h) hsame'
    have hdrawn : j < i + 2 := by omega
    obtain ⟨drawn, hdraw⟩ := exists_draw hdrawn (by omega)
    refine ⟨drawn ++ words, fun more state => ?_⟩
    rw [shuffleUpTo, List.append_assoc, hdraw]
    exact hwords more state

/-- Every order of a list is the shuffle of it by some words. -/
theorem exists_shuffle (hlength : l.length ≤ 2 ^ 64) (h : m.Perm l) :
    ∃ words, ∀ state, shuffle ⟨words, state⟩ l = .ok (m, ⟨[], state⟩) := by
  have hlast : l.length - 1 < 2 ^ 64 := by omega
  have hsize : l.length - 1 ≤ l.toArray.size - 1 := Nat.le_refl _
  have hsame : ∀ k, l.length - 1 < k → l.toArray[k]? = m.toArray[k]? := by
    intro k hk
    have hlengths := h.length_eq
    rw [List.getElem?_toArray, List.getElem?_toArray, List.getElem?_eq_none (by omega),
      List.getElem?_eq_none (by omega)]
  obtain ⟨words, hwords⟩ := exists_shuffleUpTo hsize hlast h.symm.toArray hsame
  refine ⟨words, fun state => ?_⟩
  have hshuffle := hwords [] state
  rw [List.append_nil] at hshuffle
  rw [shuffle, hshuffle]
  rfl

theorem eq_noDraw_of_shuffleUpTo {s : WordSource} {f : Fault}
    (h : shuffleUpTo i items s = .error f) : f = .noDraw := by
  induction i generalizing items s with
  | zero => cases h
  | succ i ih =>
    rcases bind_eq_error_iff.1 h with hdraw | ⟨_, -, h⟩
    · exact eq_noDraw_of_draw hdraw
    · exact ih h

theorem eq_noDraw_of_shuffle {s : WordSource} {f : Fault} (h : s.shuffle l = .error f) :
    f = .noDraw := by
  rcases bind_eq_error_iff.1 h with hshuffled | ⟨_, -, h⟩
  · exact eq_noDraw_of_shuffleUpTo hshuffled
  · cases h

end

end DominoTiling.WordSource
