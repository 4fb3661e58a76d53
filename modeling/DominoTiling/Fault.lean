/-!
# Faults

Sizes, positions and counters are 64-bit words. A computation on them either has a value or stops
with a `Fault`; nothing wraps around and nothing is read past its end. `word` is the only place
where a number is held against the width of a word, `allocate` the only place where storage is held
against the largest size a single block may have. Values of an environment end at a NUL character,
so one that holds such a character is a fault as well. A computation may also hold its own state
against what it should be (`assertion`).
-/

namespace DominoTiling

-- a power of numbers is the same term whichever other powers are in scope
attribute [default_instance 20000] instPowNat

/-- Why a computation has no value on a machine of 64-bit words. -/
inductive Fault where
  /-- A number would need more than 64 bits. -/
  | overflow
  /-- A position lies past the last item. -/
  | outOfRange
  /-- A block of storage would be larger than any block can be. -/
  | tooBig
  /-- A source of random words gave none that a draw could use. -/
  | noDraw
  /-- A value for an environment holds a NUL character. -/
  | nulInValue
  /-- A check of a computation on its own state failed. -/
  | assertion
  deriving DecidableEq

/-- A computation in two parts has a value if its first part has one and its second part has one
from there. -/
theorem bind_eq_ok_iff {ε α β : Type} {x : Except ε α} {f : α → Except ε β} {r : β} :
    x >>= f = .ok r ↔ ∃ a, x = .ok a ∧ f a = .ok r := by
  cases x with
  | ok a => exact ⟨fun h => ⟨a, rfl, h⟩, fun ⟨_, ha, h⟩ => Except.ok.inj ha ▸ h⟩
  | error e => exact ⟨fun h => (by cases h), fun ⟨_, ha, _⟩ => (by cases ha)⟩

/-- A computation in two parts fails where its first part does, or its second part from there. -/
theorem bind_eq_error_iff {ε α β : Type} {x : Except ε α} {f : α → Except ε β} {e : ε} :
    x >>= f = .error e ↔ x = .error e ∨ ∃ a, x = .ok a ∧ f a = .error e := by
  cases x with
  | ok a =>
    refine ⟨fun h => .inr ⟨a, rfl, h⟩, ?_⟩
    rintro (h | ⟨_, ha, h⟩)
    · cases h
    · exact Except.ok.inj ha ▸ h
  | error e' =>
    refine ⟨fun h => .inl (congrArg Except.error (Except.error.inj h)), ?_⟩
    rintro (h | ⟨_, ha, -⟩)
    · exact congrArg Except.error (Except.error.inj h)
    · cases ha

/-- The number itself, if it fits a 64-bit word. -/
def word (n : Nat) : Except Fault Nat :=
  if n < 2 ^ 64 then .ok n else .error .overflow

theorem word_of_lt {n : Nat} (h : n < 2 ^ 64) : word n = .ok n := by
  simp only [word, h, ↓reduceIte]

theorem word_of_le {n : Nat} (h : 2 ^ 64 ≤ n) : word n = .error .overflow := by
  simp only [word, Nat.not_lt.2 h, ↓reduceIte]

theorem word_eq_ok_iff {n m : Nat} : word n = .ok m ↔ n < 2 ^ 64 ∧ m = n := by
  by_cases h : n < 2 ^ 64
  · rw [word_of_lt h]
    exact ⟨fun e => ⟨h, (Except.ok.inj e).symm⟩, fun e => by rw [e.2]⟩
  · rw [word_of_le (Nat.le_of_not_lt h)]
    exact ⟨fun e => (by cases e), fun e => absurd e.1 h⟩

theorem word_eq_error_iff {n : Nat} {f : Fault} : word n = .error f ↔ 2 ^ 64 ≤ n ∧ f = .overflow := by
  by_cases h : n < 2 ^ 64
  · rw [word_of_lt h]
    exact ⟨fun e => (by cases e), fun e => absurd h (Nat.not_lt.2 e.1)⟩
  · rw [word_of_le (Nat.le_of_not_lt h)]
    exact ⟨fun e => ⟨Nat.le_of_not_lt h, (Except.error.inj e).symm⟩, fun e => by rw [e.2]⟩

/-- Storage for `count` items of `bytes` bytes each. A block stays below `2 ^ 63` bytes. -/
def allocate (bytes count : Nat) : Except Fault Unit :=
  if bytes * count < 2 ^ 63 then .ok () else .error .tooBig

theorem allocate_of_lt {bytes count : Nat} (h : bytes * count < 2 ^ 63) :
    allocate bytes count = .ok () := by
  simp only [allocate, h, ↓reduceIte]

theorem allocate_of_le {bytes count : Nat} (h : 2 ^ 63 ≤ bytes * count) :
    allocate bytes count = .error .tooBig := by
  simp only [allocate, Nat.not_lt.2 h, ↓reduceIte]

theorem lt_of_allocate {bytes count : Nat} (h : allocate bytes count = .ok ()) :
    bytes * count < 2 ^ 63 := by
  unfold allocate at h
  split at h
  · assumption
  · cases h

end DominoTiling
