import DominoTiling.Search.IndexSet

/-!
# Sets of positions in place

A set of positions that one owner keeps is changed and asked in place, one operation after the other. An
operation that faults leaves the words as they are by then (`Operation.perform`). It is the operation on
values all the same (`Operation.perform_eq`): a word is read before it is written, so the fault comes
before any change.

Whatever was done with it, a set holds exactly the positions whose last change put them in (`Tracks`). An
operation on one position keeps this, as it changes no other bit (`Tracks.step`), and so does any
sequence of operations (`tracks_after`). What a set answers then is read off
(`answers_after_operations`).
-/

namespace DominoTiling.Search.IndexSet

/-- The number of positions for which a set made for `length` positions has a bit. -/
def capacity (length : Nat) : Nat := 64 * ((length + 63) / 64)

inductive Operation where
  | insert (i : Nat)
  | remove (i : Nat)
  | contains (i : Nat)
  | isEmpty
  deriving DecidableEq

/-- What an operation answers: that it is done, or whether something is so. -/
inductive Answer where
  | done
  | truth (v : Bool)
  deriving DecidableEq

/-! ### Words in place -/

def readWord (k : Nat) : EStateM Fault IndexSet (BitVec 64) := fun s =>
  if h : k < s.words.size then .ok s.words[k] s else .error .outOfRange s

def writeWord (k : Nat) (w : BitVec 64) : EStateM Fault IndexSet Unit := fun s =>
  if h : k < s.words.size then .ok () ⟨s.words.set k w h⟩ else .error .outOfRange s

/-- Changes the word that holds the position `i`. -/
def changeWord (i : Nat) (f : BitVec 64 → BitVec 64) : EStateM Fault IndexSet Answer := do
  let w ← readWord (i / 64)
  writeWord (i / 64) (f w)
  return .done

/-- A computation on values as one in place. Where it faults, the set stays. -/
def settle (s : IndexSet) : Except Fault (Answer × IndexSet) → EStateM.Result Fault IndexSet Answer
  | .ok (a, s') => .ok a s'
  | .error f => .error f s

theorem readWord_of_lt {s : IndexSet} {k : Nat} (h : k < s.words.size) :
    readWord k s = .ok s.words[k] s := dif_pos h

theorem readWord_of_le {s : IndexSet} {k : Nat} (h : s.words.size ≤ k) :
    readWord k s = .error .outOfRange s := dif_neg (Nat.not_lt.2 h)

theorem changeWord_eq (s : IndexSet) (i : Nat) (f : BitVec 64 → BitVec 64) :
    changeWord i f s = settle s ((s.modify i f).map (Answer.done, ·)) := by
  show EStateM.bind (readWord (i / 64)) _ s = _
  rw [EStateM.bind, modify]
  rcases Nat.lt_or_ge (i / 64) s.words.size with h | h
  · have hwrite : writeWord (i / 64) (f s.words[i / 64]) s =
        .ok () ⟨s.words.set (i / 64) (f s.words[i / 64]) h⟩ := dif_pos h
    rw [readWord_of_lt h, dif_pos h]
    show EStateM.bind (writeWord (i / 64) (f s.words[i / 64])) _ s = _
    rw [EStateM.bind, hwrite]
    rfl
  -- the word is missed where it is read, so nothing has been written
  · rw [readWord_of_le h, dif_neg (Nat.not_lt.2 h)]
    rfl

/-! ### Operations -/

namespace Operation
variable {op : Operation} {i : Nat} {s s' : IndexSet}

def perform : Operation → EStateM Fault IndexSet Answer
  | .insert i => changeWord i fun w => w ||| BitVec.twoPow 64 (i % 64)
  | .remove i => changeWord i fun w => w &&& ~~~BitVec.twoPow 64 (i % 64)
  | .contains i => return .truth ((← readWord (i / 64)).getLsbD (i % 64))
  | .isEmpty => return .truth (← get).isEmpty

/-- The operation on values: what it answers, and the set after it. -/
def result (s : IndexSet) : Operation → Except Fault (Answer × IndexSet)
  | .insert i => (s.insert i).map (Answer.done, ·)
  | .remove i => (s.remove i).map (Answer.done, ·)
  | .contains i => (s.contains i).map (Answer.truth ·, s)
  | .isEmpty => .ok (.truth s.isEmpty, s)

/-- The position that an operation is about. -/
def position? : Operation → Option Nat
  | .insert i | .remove i | .contains i => some i
  | .isEmpty => none

/-- Does the operation put the position `i` in or take it out? -/
def Changes (op : Operation) (i : Nat) : Prop := op = .insert i ∨ op = .remove i

instance (op : Operation) (i : Nat) : Decidable (op.Changes i) :=
  inferInstanceAs (Decidable (op = .insert i ∨ op = .remove i))

/-- The set that the operation leaves, also where it faults. -/
def leaves (op : Operation) (s : IndexSet) : IndexSet :=
  match op.perform s with
  | .ok _ s' => s'
  | .error _ s' => s'

/-- The last of the operations that puts the position `i` in or takes it out. -/
def lastChange (ops : List Operation) (i : Nat) : Option Operation :=
  ops.reverse.find? fun op => op.Changes i

theorem lastChange_append (ops : List Operation) (op : Operation) (i : Nat) :
    lastChange (ops ++ [op]) i = if op.Changes i then some op else lastChange ops i := by
  rw [lastChange, List.reverse_append, List.reverse_singleton, List.singleton_append, List.find?_cons]
  by_cases h : op.Changes i
  · simp only [h, decide_true, ↓reduceIte]
  · simp only [h, decide_false, ↓reduceIte, lastChange]

theorem perform_eq (op : Operation) (s : IndexSet) : op.perform s = settle s (op.result s) := by
  cases op with
  | insert i => exact changeWord_eq s i _
  | remove i => exact changeWord_eq s i _
  | contains i =>
    show EStateM.bind (readWord (i / 64)) _ s = _
    rw [EStateM.bind, result, IndexSet.contains]
    rcases Nat.lt_or_ge (i / 64) s.words.size with h | h
    · rw [readWord_of_lt h, Array.getElem?_eq_getElem h]
      rfl
    · rw [readWord_of_le h, Array.getElem?_eq_none h]
      rfl
  | isEmpty => rfl

theorem eq_of_changes {j : Nat} (h : op.Changes i) (hj : op.Changes j) : j = i := by
  rcases h with rfl | rfl <;> rcases hj with hj | hj <;> cases hj <;> rfl

/-- A change of a position that has a bit is done, and no other position goes in or out. -/
theorem perform_change (h : op.Changes i) (hi : i / 64 < s.words.size) :
    ∃ s', op.perform s = .ok .done s' ∧ s'.words.size = s.words.size ∧
      ∀ j, s'.contains j = if j = i then .ok (decide (op = .insert i)) else s.contains j := by
  rw [perform_eq]
  rcases h with rfl | rfl
  · obtain ⟨s', hin, hwords⟩ := exists_insert hi
    rw [result, hin]
    refine ⟨s', rfl, hwords, fun j => ?_⟩
    rw [contains_insert hin, decide_eq_true rfl]
  · obtain ⟨s', hout, hwords⟩ := exists_remove hi
    rw [result, hout]
    refine ⟨s', rfl, hwords, fun j => ?_⟩
    rw [contains_remove hout, decide_eq_false nofun]

/-- An operation on a position past the words faults and changes nothing. -/
theorem perform_beyond (h : op.position? = some i) (hi : s.words.size ≤ i / 64) :
    op.perform s = .error .outOfRange s := by
  rw [perform_eq]
  have hmodify : ∀ f, s.modify i f = .error .outOfRange := fun f => dif_neg (Nat.not_lt.2 hi)
  cases op with
  | insert j =>
    obtain rfl : j = i := Option.some.inj h
    rw [result, IndexSet.insert, hmodify]
    rfl
  | remove j =>
    obtain rfl : j = i := Option.some.inj h
    rw [result, IndexSet.remove, hmodify]
    rfl
  | contains j =>
    obtain rfl : j = i := Option.some.inj h
    rw [result, IndexSet.contains, Array.getElem?_eq_none hi]
    rfl
  | isEmpty => cases h

theorem leaves_of_ok {a : Answer} (h : op.perform s = .ok a s') : op.leaves s = s' := by
  rw [leaves, h]

/-- An operation that changes no position with a bit leaves the set as it is. -/
theorem leaves_eq_self (h : ∀ i, op.Changes i → s.words.size ≤ i / 64) : op.leaves s = s := by
  cases op with
  | insert i => rw [leaves, perform_beyond rfl (h i (.inl rfl))]
  | remove i => rw [leaves, perform_beyond rfl (h i (.inr rfl))]
  | contains i =>
    rw [leaves, perform_eq, result]
    cases s.contains i <;> rfl
  | isEmpty => rfl

end Operation

open Operation

/-- The set after the operations in this order, whatever they answered. -/
def after (ops : List Operation) (s : IndexSet) : IndexSet := ops.foldl (fun s op => op.leaves s) s

/-! ### Any operations -/

/-- The set holds the positions that were put in last, and has the bits it was made with. -/
structure Tracks (length : Nat) (ops : List Operation) (s : IndexSet) : Prop where
  words : s.words.size = (length + 63) / 64
  contains : ∀ i < capacity length,
    s.contains i = .ok (decide (lastChange ops i = some (.insert i)))

/-- In place, the set does what the set of the positions `i < bound` with `isIn i` does. Past the bound
every operation faults. -/
structure StandsFor (bound : Nat) (isIn : Nat → Prop) (s : IndexSet) : Prop where
  contains : ∀ i < bound, ∃ v, (Operation.contains i).perform s = .ok (.truth v) s ∧
    (v = true ↔ isIn i)
  isEmpty : ∃ v, Operation.isEmpty.perform s = .ok (.truth v) s ∧ (v = true ↔ ¬ ∃ i < bound, isIn i)
  change : ∀ i < bound, ∀ op : Operation, op.Changes i → ∃ s', op.perform s = .ok .done s' ∧
    s'.contains i = .ok (decide (op = .insert i)) ∧ ∀ j, j ≠ i → s'.contains j = s.contains j
  beyond : ∀ i, bound ≤ i → ∀ op : Operation, op.position? = some i →
    op.perform s = .error .outOfRange s

section
variable {length i : Nat} {ops : List Operation} {op : Operation} {s : IndexSet}

theorem word_lt_iff : i / 64 < (length + 63) / 64 ↔ i < capacity length := by
  unfold capacity
  omega

theorem tracks_empty (length : Nat) : Tracks length [] (empty length) :=
  ⟨Array.size_replicate, fun _ hi => contains_empty_of_word (word_lt_iff.2 hi)⟩

theorem Tracks.step (h : Tracks length ops s) (op : Operation) :
    Tracks length (ops ++ [op]) (op.leaves s) := by
  by_cases hchange : ∃ i, op.Changes i ∧ i < capacity length
  · obtain ⟨i, hop, hi⟩ := hchange
    obtain ⟨s', hperform, hwords, hcontains⟩ := perform_change hop (h.words ▸ word_lt_iff.2 hi)
    rw [leaves_of_ok hperform]
    refine ⟨hwords.trans h.words, fun j hj => ?_⟩
    rw [hcontains, lastChange_append]
    by_cases hji : j = i
    · subst hji
      rw [if_pos rfl, if_pos hop]
      simp only [Option.some.injEq]
    · rw [if_neg hji, if_neg fun hj => hji (eq_of_changes hop hj), h.contains j hj]
  -- what is done to a position past the words is no change of one that has a bit
  · have hbeyond : ∀ i, op.Changes i → s.words.size ≤ i / 64 := fun i hop =>
      Nat.le_of_not_lt fun hi => hchange ⟨i, hop, word_lt_iff.1 (h.words ▸ hi)⟩
    rw [leaves_eq_self hbeyond]
    refine ⟨h.words, fun j hj => ?_⟩
    rw [lastChange_append, if_neg fun hop => hchange ⟨j, hop, hj⟩, h.contains j hj]

theorem Tracks.run (h : Tracks length ops s) (more : List Operation) :
    Tracks length (ops ++ more) (after more s) := by
  induction more generalizing ops s with
  | nil => rwa [List.append_nil]
  | cons op more ih =>
    rw [List.append_cons]
    exact ih (h.step op)

theorem tracks_after (length : Nat) (ops : List Operation) :
    Tracks length ops (after ops (empty length)) := (tracks_empty length).run ops

theorem Tracks.isEmpty_iff (h : Tracks length ops s) :
    s.isEmpty = true ↔ ¬ ∃ i < capacity length, lastChange ops i = some (.insert i) := by
  rw [IndexSet.isEmpty_iff]
  constructor
  · rintro hempty ⟨i, hi, hlast⟩
    have hin := h.contains i hi
    rw [hempty i (h.words ▸ word_lt_iff.2 hi), decide_eq_true hlast] at hin
    cases hin
  · intro hnone i hi
    have hi := word_lt_iff.1 (h.words ▸ hi)
    rw [h.contains i hi, decide_eq_false fun hlast => hnone ⟨i, hi, hlast⟩]

theorem Tracks.standsFor (h : Tracks length ops s) :
    StandsFor (capacity length) (fun i => lastChange ops i = some (.insert i)) s where
  contains i hi := by
    refine ⟨_, ?_, decide_eq_true_iff⟩
    rw [perform_eq, result, h.contains i hi]
    rfl
  isEmpty := ⟨s.isEmpty, rfl, h.isEmpty_iff⟩
  change i hi op hop := by
    obtain ⟨s', hperform, -, hcontains⟩ := perform_change hop (h.words ▸ word_lt_iff.2 hi)
    exact ⟨s', hperform, (hcontains i).trans (if_pos rfl), fun j hj => (hcontains j).trans (if_neg hj)⟩
  beyond i hi op hop :=
    perform_beyond hop (Nat.le_of_not_lt fun hlt => Nat.not_lt.2 hi (word_lt_iff.1 (h.words ▸ hlt)))

end

/-- After any operations, a set made for `length` positions stands for the positions that the last
operation to change them put in. In place or on values, its operations are the same. -/
theorem answers_after_operations (length : Nat) (ops : List Operation) :
    StandsFor (capacity length) (fun i => lastChange ops i = some (.insert i))
        (after ops (empty length)) ∧
      ∀ (op : Operation) (s : IndexSet), op.perform s = settle s (op.result s) :=
  ⟨(tracks_after length ops).standsFor, perform_eq⟩

/-- Three words. A position comes and goes in the first of them, one stays in the others each, and one
past them is refused. -/
theorem answers_after_operations_three_words :
    ∃ s : IndexSet,
      after [.insert 0, .insert 64, .remove 0, .insert 129, .insert 192] (empty 130) = s ∧
      s.words = #[0, 1, 2] ∧
      (Operation.contains 0).perform s = .ok (.truth false) s ∧
      (Operation.contains 129).perform s = .ok (.truth true) s ∧
      Operation.isEmpty.perform s = .ok (.truth false) s ∧
      (Operation.insert 192).perform s = .error .outOfRange s := by
  obtain ⟨h, -⟩ := answers_after_operations 130
    [.insert 0, .insert 64, .remove 0, .insert 129, .insert 192]
  obtain ⟨v, hout, hv⟩ := h.contains 0 (by decide)
  obtain ⟨w, hin, hw⟩ := h.contains 129 (by decide)
  obtain ⟨e, hempty, he⟩ := h.isEmpty
  obtain rfl : v = false := Bool.eq_false_iff.2 fun hin => absurd (hv.1 hin) (by decide)
  obtain rfl : w = true := hw.2 rfl
  obtain rfl : e = false := Bool.eq_false_iff.2 fun hnone =>
    he.1 hnone ⟨129, by decide, rfl⟩
  exact ⟨_, rfl, rfl, hout, hin, hempty, h.beyond 192 (by decide) _ rfl⟩

end DominoTiling.Search.IndexSet
