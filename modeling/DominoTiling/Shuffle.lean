import DominoTiling.Fault

/-!
# Shuffling

A source of random words, and the shuffle of a list by it: from the last position down, each item
changes places with one drawn evenly from those up to its own position.

A draw takes words of 32 bits for a bound that such a word holds, and words of 64 bits for any other.
One of `count` words, `v`, gives the draw `v * bound / count`, unless its fraction lies past the last
multiple of the bound that a word holds; then another word is taken. The source goes on for ever with
a generator that runs through all its states, so no draw is refused for ever: a source is given up
only after its `patience`, which is longer than a full round of the generator.
-/

namespace DominoTiling

/-- The size of the words that a draw takes. -/
inductive Width where
  | narrow
  | wide
  deriving DecidableEq

namespace Width

/-- The width for a bound. -/
def forBound (bound : Nat) : Width := if bound < 2 ^ 32 then .narrow else .wide

def bits : Width → Nat
  | .narrow => 32
  | .wide => 64

/-- The number of words of this width. -/
def count : Width → Nat
  | .narrow => 2 ^ 32
  | .wide => 2 ^ 64

/-- The largest fraction taken for a bound: one below the largest multiple of the bound by a power
of two that a word holds. -/
def zone (w : Width) (bound : Nat) : Nat := bound * Nat.pow 2 (w.bits - 1 - bound.log2) - 1

end Width

/-- Words of 32 bits given in advance, and the state of the generator that goes on after them. -/
structure WordSource where
  words : List UInt32
  state : UInt64

namespace WordSource

def next (s : WordSource) : UInt32 × WordSource :=
  match s.words with
  | w :: ws => (w, { s with words := ws })
  | [] =>
    let state := s.state * 6364136223846793005 + 1442695040888963407
    ((state >>> 32).toUInt32, { s with state := state })

/-- The next word of a width. A wide one is made of two others, the lower half first. -/
def take : Width → WordSource → Nat × WordSource
  | .narrow, s =>
    let (v, s) := s.next
    (v.toNat, s)
  | .wide, s =>
    let (low, s) := s.next
    let (high, s) := s.next
    (high.toNat * 2 ^ 32 + low.toNat, s)

/-- A number of words among which the generator has passed through all its states. -/
def patience (s : WordSource) : Nat := s.words.length + 2 ^ 64

/-- A number below the bound, from at most so many words. -/
def drawWithin (w : Width) (bound : Nat) : Nat → WordSource → Except Fault (Nat × WordSource)
  | 0, _ => .error .noDraw
  | attempts + 1, s =>
    let (v, s) := take w s
    let m := v * bound
    if m % w.count ≤ w.zone bound then .ok (m / w.count, s) else drawWithin w bound attempts s

def draw (s : WordSource) (bound : Nat) : Except Fault (Nat × WordSource) :=
  drawWithin (.forBound bound) bound s.patience s

/-- Shuffles the items at the positions up to `i`. -/
def shuffleUpTo {α : Type} : (i : Nat) → Array α → WordSource → Except Fault (Array α × WordSource)
  | 0, items, s => .ok (items, s)
  | i + 1, items, s => do
    let (j, s) ← s.draw (i + 2)
    shuffleUpTo i (items.swapIfInBounds (i + 1) j) s

def shuffle {α : Type} (s : WordSource) (items : List α) : Except Fault (List α × WordSource) := do
  let (items, s) ← shuffleUpTo (items.length - 1) items.toArray s
  return (items.toList, s)

end WordSource
end DominoTiling
