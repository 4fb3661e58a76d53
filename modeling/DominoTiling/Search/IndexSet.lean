import DominoTiling.Fault

/-!
# Sets of positions

The positions of a list that are in use, one bit each in words of 64 bits. There are as many words
as the list needs, so a position past the list but within the last word can still be put in; one
past the words is out of range.
-/

namespace DominoTiling.Search

structure IndexSet where
  words : Array (BitVec 64)
  deriving DecidableEq

namespace IndexSet

def empty (length : Nat) : IndexSet := ⟨Array.replicate ((length + 63) / 64) 0⟩

def contains (s : IndexSet) (i : Nat) : Except Fault Bool :=
  match s.words[i / 64]? with
  | some w => .ok (w.getLsbD (i % 64))
  | none => .error .outOfRange

/-- The set with the word that holds the position `i` changed. -/
def modify (s : IndexSet) (i : Nat) (f : BitVec 64 → BitVec 64) : Except Fault IndexSet :=
  if h : i / 64 < s.words.size then
    .ok ⟨s.words.set (i / 64) (f s.words[i / 64]) h⟩
  else
    .error .outOfRange

def insert (s : IndexSet) (i : Nat) : Except Fault IndexSet :=
  s.modify i fun w => w ||| BitVec.twoPow 64 (i % 64)

def remove (s : IndexSet) (i : Nat) : Except Fault IndexSet :=
  s.modify i fun w => w &&& ~~~BitVec.twoPow 64 (i % 64)

def isEmpty (s : IndexSet) : Bool := s.words.all (· == 0)

/-! ### Membership -/

theorem ext_words {s t : IndexSet} (h : ∀ k : Nat, s.words[k]? = t.words[k]?) : s = t := by
  obtain ⟨words⟩ := s
  exact congrArg IndexSet.mk (Array.ext_getElem? h)

theorem contains_eq_ok_iff {s : IndexSet} {i : Nat} {v : Bool} :
    s.contains i = .ok v ↔ ∃ w, s.words[i / 64]? = some w ∧ w.getLsbD (i % 64) = v := by
  unfold contains
  cases s.words[i / 64]? with
  | some w => simp
  | none => simp

theorem modify_eq_ok {s s' : IndexSet} {i : Nat} {f : BitVec 64 → BitVec 64}
    (h : s.modify i f = .ok s') :
    ∃ w, s.words[i / 64]? = some w ∧
      ∀ k : Nat, s'.words[k]? = if k = i / 64 then some (f w) else s.words[k]? := by
  unfold modify at h
  split at h
  · rename_i hi
    obtain rfl := Except.ok.inj h
    refine ⟨s.words[i / 64], Array.getElem?_eq_getElem hi, fun k => ?_⟩
    simp only [Array.getElem?_set, eq_comm]
  · cases h

/-- What a change of one bit does to the positions in the set. -/
theorem contains_modify {s s' : IndexSet} {i : Nat} {f : BitVec 64 → BitVec 64} {v : Bool}
    (hf : ∀ w : BitVec 64, ∀ k < 64, (f w).getLsbD k = if k = i % 64 then v else w.getLsbD k)
    (h : s.modify i f = .ok s') (j : Nat) :
    s'.contains j = if j = i then .ok v else s.contains j := by
  obtain ⟨w, hw, hwords⟩ := modify_eq_ok h
  have hj : j % 64 < 64 := Nat.mod_lt j (by decide)
  by_cases hword : j / 64 = i / 64
  · have hbit : j % 64 = i % 64 ↔ j = i := by omega
    simp only [contains, hwords, hword, ↓reduceIte, hw, hf w _ hj, hbit]
    split <;> rfl
  · have hne : j ≠ i := fun e => hword (by rw [e])
    simp only [contains, hwords, hword, ↓reduceIte, hne]

theorem contains_insert {s s' : IndexSet} {i : Nat} (h : s.insert i = .ok s') (j : Nat) :
    s'.contains j = if j = i then .ok true else s.contains j :=
  contains_modify (fun w k hk => by by_cases e : k = i % 64 <;> simp [e, hk, Nat.mod_lt]) h j

theorem contains_remove {s s' : IndexSet} {i : Nat} (h : s.remove i = .ok s') (j : Nat) :
    s'.contains j = if j = i then .ok false else s.contains j :=
  contains_modify (fun w k hk => by by_cases e : k = i % 64 <;> simp [e, hk]) h j

theorem exists_contains {s : IndexSet} {i : Nat} (h : i / 64 < s.words.size) :
    ∃ v, s.contains i = .ok v :=
  ⟨_, contains_eq_ok_iff.2 ⟨_, Array.getElem?_eq_getElem h, rfl⟩⟩

theorem exists_modify {s : IndexSet} {i : Nat} (h : i / 64 < s.words.size)
    (f : BitVec 64 → BitVec 64) : ∃ s', s.modify i f = .ok s' ∧ s'.words.size = s.words.size :=
  ⟨_, dif_pos h, Array.size_set h⟩

theorem exists_insert {s : IndexSet} {i : Nat} (h : i / 64 < s.words.size) :
    ∃ s', s.insert i = .ok s' ∧ s'.words.size = s.words.size :=
  exists_modify h _

theorem exists_remove {s : IndexSet} {i : Nat} (h : i / 64 < s.words.size) :
    ∃ s', s.remove i = .ok s' ∧ s'.words.size = s.words.size :=
  exists_modify h _

/-- Putting a new position in and taking it out again changes no word. -/
theorem remove_insert {s s' s'' : IndexSet} {i : Nat} (hnew : s.contains i = .ok false)
    (hin : s.insert i = .ok s') (hout : s'.remove i = .ok s'') : s'' = s := by
  obtain ⟨w, hw, hwords⟩ := modify_eq_ok hin
  obtain ⟨w', hw', hwords'⟩ := modify_eq_ok hout
  obtain ⟨w₀, hw₀, hbit⟩ := contains_eq_ok_iff.1 hnew
  obtain rfl : w = w₀ := Option.some.inj (hw.symm.trans hw₀)
  obtain rfl : w ||| BitVec.twoPow 64 (i % 64) = w' := by
    rw [hwords, if_pos rfl] at hw'
    exact Option.some.inj hw'
  refine ext_words fun k => ?_
  rw [hwords', hwords]
  split
  · rename_i hk
    rw [hk, hw]
    refine congrArg some (BitVec.eq_of_getLsbD_eq fun m hm => ?_)
    by_cases e : m = i % 64
    · simp [e, hbit]
    · simp [hm, e]
  · rfl

/-- In a set that holds nothing every bit is down, those past the list included. -/
theorem contains_empty_of_word {length i : Nat} (h : i / 64 < (length + 63) / 64) :
    (empty length).contains i = .ok false := by
  refine contains_eq_ok_iff.2 ⟨0, ?_, by simp⟩
  rw [empty, Array.getElem?_replicate, if_pos h]

theorem contains_empty {length i : Nat} (h : i < length) :
    (empty length).contains i = .ok false := contains_empty_of_word (by omega)

theorem contains_empty_ne {length i : Nat} : (empty length).contains i ≠ .ok true := by
  intro h
  obtain ⟨w, hw, hbit⟩ := contains_eq_ok_iff.1 h
  rw [empty, Array.getElem?_replicate] at hw
  split at hw
  · rw [← Option.some.inj hw] at hbit
    simp at hbit
  · cases hw

/-- A set is empty if every bit of it is down. -/
theorem isEmpty_iff {s : IndexSet} :
    s.isEmpty = true ↔ ∀ i, i / 64 < s.words.size → s.contains i = .ok false := by
  rw [isEmpty, Array.all_eq_true]
  constructor
  · intro h i hi
    refine contains_eq_ok_iff.2 ⟨_, Array.getElem?_eq_getElem hi, ?_⟩
    rw [eq_of_beq (h (i / 64) hi)]
    exact BitVec.getLsbD_zero
  · intro h k hk
    refine beq_iff_eq.2 (BitVec.eq_of_getLsbD_eq fun m hm => ?_)
    obtain ⟨w, hw, hbit⟩ := contains_eq_ok_iff.1 (h (64 * k + m) (by omega))
    rw [show (64 * k + m) / 64 = k by omega, Array.getElem?_eq_getElem hk] at hw
    rw [show (64 * k + m) % 64 = m by omega, ← Option.some.inj hw] at hbit
    rw [hbit]
    exact BitVec.getLsbD_zero.symm

theorem isEmpty_empty (length : Nat) : (empty length).isEmpty = true := by
  refine isEmpty_iff.2 fun i hi => contains_empty_of_word ?_
  rwa [empty, Array.size_replicate] at hi

end IndexSet
end DominoTiling.Search
