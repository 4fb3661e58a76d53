import DominoTiling.Domino
import Mathlib.Algebra.BigOperators.Group.List.Basic
import Mathlib.Data.List.Nodup
import Mathlib.Data.Sym.Sym2
import Mathlib.Tactic.Ring

/-!
# The complete set

`upTo n` holds every pair of pips up to `n` once: its dominoes are those with the smaller side first
(`mem_upTo`), in strictly ascending order (`pairwise_upTo`), so no two of them have the same sides in
any order. Any two pips up to `n` are the sides of one of them (`exists_covers`), which stands at one
position (`existsUnique_coversAt`), and `(n + 1) * (n + 2) / 2` is their number (`length_upTo`).
-/

namespace DominoTiling.Domino
variable {n : Nat} {d d' : Domino} {ds : List Domino}

def sides (d : Domino) : Sym2 Nat := s(d.side1, d.side2)

theorem covers_iff_sides {p q : Nat} : d.covers p q = true ↔ d.sides = s(p, q) := by
  rw [covers_iff, sides, Sym2.eq_iff]

theorem mem_upTo : d ∈ upTo n ↔ d.side1 ≤ d.side2 ∧ d.side2 ≤ n := by
  obtain ⟨a, b⟩ := d
  simp only [upTo, List.mem_flatMap, List.mem_range, List.mem_map, List.mem_range'_1,
    Domino.mk.injEq]
  constructor
  · rintro ⟨i, hi, j, hj, rfl, rfl⟩
    omega
  · rintro ⟨hab, hb⟩
    exact ⟨a, by omega, b, by omega, rfl, rfl⟩

theorem pairwise_upTo (n : Nat) :
    (upTo n).Pairwise fun a b => a.side1 < b.side1 ∨ (a.side1 = b.side1 ∧ a.side2 < b.side2) := by
  refine List.pairwise_flatMap.2 ⟨fun i _ => ?_, List.pairwise_lt_range.imp fun {i j} hij => ?_⟩
  · refine List.pairwise_map.2 ((List.pairwise_lt_range' 1).imp fun {j k} hjk => ?_)
    exact .inr ⟨rfl, hjk⟩
  · intro a ha b hb
    obtain ⟨_, -, rfl⟩ := List.mem_map.1 ha
    obtain ⟨_, -, rfl⟩ := List.mem_map.1 hb
    exact .inl hij

theorem nodup_upTo (n : Nat) : (upTo n).Nodup := by
  refine (pairwise_upTo n).imp fun {a b} hlt hab => ?_
  subst hab
  omega

/-- The set with fewer pips stands in the set in its order. -/
theorem filter_upTo {m : Nat} (h : n ≤ m) : ((upTo m).filter fun d => d.side2 ≤ n) = upTo n := by
  refine List.Perm.eq_of_pairwise ?_ ((pairwise_upTo m).filter _) (pairwise_upTo n)
    ((List.perm_ext_iff_of_nodup ((nodup_upTo m).filter _) (nodup_upTo n)).2 ?_)
  · intro d d' _ _ hlt hlt'
    omega
  · intro d
    simp only [List.mem_filter, mem_upTo, decide_eq_true_eq]
    omega

/-- Dominoes of the set with the same two sides are the same. -/
theorem eq_of_sides (hd : d ∈ upTo n) (hd' : d' ∈ upTo n) (h : d.sides = d'.sides) : d = d' := by
  obtain ⟨a, b⟩ := d
  obtain ⟨a', b'⟩ := d'
  have hab := (mem_upTo.1 hd).1
  have hab' := (mem_upTo.1 hd').1
  rcases Sym2.eq_iff.1 h with ⟨h1, h2⟩ | ⟨h1, h2⟩
  · rw [Domino.mk.injEq]
    exact ⟨h1, h2⟩
  · dsimp only at hab hab' h1 h2
    rw [Domino.mk.injEq]
    omega

theorem nodup_sides_upTo (n : Nat) : ((upTo n).map sides).Nodup :=
  (nodup_upTo n).map_on fun _ hd _ hd' => eq_of_sides hd hd'

theorem exists_covers {p q : Nat} (hp : p ≤ n) (hq : q ≤ n) :
    ∃ d ∈ upTo n, d.covers p q = true := by
  rcases Nat.le_total p q with h | h
  · exact ⟨⟨p, q⟩, mem_upTo.2 ⟨h, hq⟩, covers_iff.2 (.inl ⟨rfl, rfl⟩)⟩
  · exact ⟨⟨q, p⟩, mem_upTo.2 ⟨h, hp⟩, covers_iff.2 (.inr ⟨rfl, rfl⟩)⟩

/-! ### The size of the set -/

theorem two_mul_sum_sub (m N : Nat) (h : m ≤ N) :
    2 * ((List.range m).map fun i => N - i).sum = m * (2 * N + 1 - m) := by
  induction m with
  | zero => simp
  | succ m ih =>
    rw [List.sum_range_succ, Nat.mul_add, ih (by omega)]
    obtain ⟨k, rfl⟩ := Nat.exists_eq_add_of_le h
    rw [show 2 * (m + 1 + k) + 1 - m = m + 2 * k + 3 by omega,
      show m + 1 + k - m = k + 1 by omega, show 2 * (m + 1 + k) + 1 - (m + 1) = m + 2 * k + 2 by omega]
    ring

theorem length_upTo (n : Nat) : (upTo n).length = (n + 1) * (n + 2) / 2 := by
  have hsum : (upTo n).length = ((List.range (n + 1)).map fun i => n + 1 - i).sum := by
    simp [upTo, List.length_flatMap]
  have htwo := two_mul_sum_sub (n + 1) (n + 1) (Nat.le_refl _)
  rw [← hsum, show 2 * (n + 1) + 1 - (n + 1) = n + 2 by omega] at htwo
  omega

theorem length_upTo_le {m : Nat} (h : m ≤ n) : (upTo m).length ≤ (upTo n).length := by
  rw [length_upTo, length_upTo]
  exact Nat.div_le_div_right (Nat.mul_le_mul (Nat.succ_le_succ h) (Nat.add_le_add_right h 2))

/-- The arithmetic of the size fits words for pips below the largest of 32 bits. -/
theorem setSize_of_lt (h : n < 2 ^ 32 - 1) : setSize n = .ok (upTo n).length := by
  have hproduct : (n + 1) * (n + 1 + 1) < 2 ^ 32 * 2 ^ 32 :=
    Nat.mul_lt_mul_of_lt_of_le (by omega) (by omega) (by omega)
  rw [length_upTo, setSize, word_of_lt (show n + 1 < 2 ^ 64 by omega)]
  show (word (n + 1 + 1) >>= _) = _
  rw [word_of_lt (show n + 1 + 1 < 2 ^ 64 by omega)]
  show (word ((n + 1) * (n + 1 + 1)) >>= _) = _
  rw [word_of_lt (by omega)]
  rfl

/-- With the largest pips of 32 bits the product of the size is computed before it is halved, and that
takes more than a word. -/
theorem setSize_largest : setSize (2 ^ 32 - 1) = .error .overflow := by
  rfl

theorem completeSet_largest : completeSet (2 ^ 32 - 1) = .error .overflow := by
  rw [completeSet, setSize_largest]
  rfl

theorem completeSet_of_lt (h : n < 2 ^ 32 - 1) (halloc : 8 * (upTo n).length < 2 ^ 63) :
    completeSet n = .ok (upTo n) := by
  rw [completeSet, setSize_of_lt h]
  show (allocate 8 (upTo n).length >>= _) = _
  rw [allocate_of_lt halloc]
  rfl

theorem completeSet_of_le (h : n < 2 ^ 32 - 1) (halloc : 2 ^ 63 ≤ 8 * (upTo n).length) :
    completeSet n = .error .tooBig := by
  rw [completeSet, setSize_of_lt h]
  show (allocate 8 (upTo n).length >>= _) = _
  rw [allocate_of_le halloc]
  rfl

/-- Below the largest pips of 32 bits only storage can be in the way of the set. -/
theorem completeSet_cases (h : n < 2 ^ 32 - 1) :
    completeSet n = .ok (upTo n) ∨
      (completeSet n = .error .tooBig ∧ 2 ^ 63 ≤ 8 * (upTo n).length) := by
  rcases Nat.lt_or_ge (8 * (upTo n).length) (2 ^ 63) with hbytes | hbytes
  · exact .inl (completeSet_of_lt h hbytes)
  · exact .inr ⟨completeSet_of_le h hbytes, hbytes⟩

/-- Where a set can be allocated, so can those with fewer pips. -/
theorem completeSet_of_larger {m : Nat} (hnm : n ≤ m) (hm : m < 2 ^ 32 - 1)
    (h : completeSet m = .ok ds) : completeSet n = .ok (upTo n) := by
  rcases completeSet_cases (n := n) (by omega) with hset | ⟨-, hbytes⟩
  · exact hset
  · have hle := Nat.mul_le_mul_left 8 (length_upTo_le hnm)
    rw [completeSet_of_le hm (by omega)] at h
    cases h

theorem eq_upTo_of_completeSet {ds : List Domino} (h : completeSet n = .ok ds) : ds = upTo n := by
  obtain ⟨size, -, h⟩ := bind_eq_ok_iff.1 h
  obtain ⟨_, -, h⟩ := bind_eq_ok_iff.1 h
  exact (Except.ok.inj h).symm

/-! ### Positions in the set -/

/-- The order of a sorted list: by the first side, then by the second. -/
theorem le_iff : d.le d' = true ↔ d.side1 < d'.side1 ∨ (d.side1 = d'.side1 ∧ d.side2 ≤ d'.side2) := by
  simp [le]

theorem ascending_upTo (n : Nat) : (upTo n).Pairwise fun a b => a.le b = true ∧ a ≠ b := by
  refine (pairwise_upTo n).imp fun {a b} hlt => ⟨le_iff.2 ?_, ?_⟩
  · omega
  · rintro rfl
    omega

theorem le_of_covers {p q : Nat} (hd : d ∈ upTo n) (h : d.covers p q = true) : p ≤ n ∧ q ≤ n := by
  have hsides := mem_upTo.1 hd
  rcases covers_iff.1 h with ⟨rfl, rfl⟩ | ⟨rfl, rfl⟩
  · omega
  · omega

/-- The domino at this position covers cells with pips `p` and `q`. -/
def CoversAt (ds : List Domino) (p q i : Nat) : Prop :=
  ∃ d, ds[i]? = some d ∧ d.covers p q = true

/-- Dominoes at two positions that cover the same cells would have the same sides. -/
theorem existsUnique_coversAt {p q : Nat} (hp : p ≤ n) (hq : q ≤ n) :
    ∃! i, CoversAt (upTo n) p q i := by
  obtain ⟨d, hd, hcov⟩ := exists_covers hp hq
  obtain ⟨i, hi⟩ := List.getElem?_of_mem hd
  refine ⟨i, ⟨d, hi, hcov⟩, ?_⟩
  rintro j ⟨e, hj, hcov'⟩
  obtain rfl : e = d := eq_of_sides (List.mem_of_getElem? hj) hd
    ((covers_iff_sides.1 hcov').trans (covers_iff_sides.1 hcov).symm)
  have hlt := (List.getElem?_eq_some_iff.1 hj).1
  exact (List.getElem?_inj hlt (nodup_upTo n)).1 (hj.trans hi.symm)

/-- The complete set, made wherever its size can be stored: as many dominoes as the size says, each
above the one before, the pairs of pips up to the largest with the smaller side first. Two cells with
such pips are covered by the domino at one position, other cells by none. -/
theorem completeSet_positions (h : n < 2 ^ 32 - 1) :
    setSize n = .ok ((n + 1) * (n + 2) / 2) ∧
    (8 * ((n + 1) * (n + 2) / 2) < 2 ^ 63 → ∃ ds, completeSet n = .ok ds) ∧
    ∀ ds, completeSet n = .ok ds →
      ds.length = (n + 1) * (n + 2) / 2 ∧
      (ds.Pairwise fun a b => a.le b = true ∧ a ≠ b) ∧
      (∀ d, d ∈ ds ↔ d.side1 ≤ d.side2 ∧ d.side2 ≤ n) ∧
      (∀ p q, p ≤ n → q ≤ n → ∃! i, CoversAt ds p q i) ∧
      (∀ p q, n < p ∨ n < q → ∀ i, ¬ CoversAt ds p q i) := by
  have hsize : setSize n = .ok ((n + 1) * (n + 2) / 2) := by
    rw [setSize_of_lt h, length_upTo]
  refine ⟨hsize, ?_, ?_⟩
  · intro halloc
    exact ⟨_, completeSet_of_lt h ((length_upTo n).symm ▸ halloc)⟩
  · intro ds hds
    obtain rfl := eq_upTo_of_completeSet hds
    refine ⟨length_upTo n, ascending_upTo n, fun d => mem_upTo, fun p q => existsUnique_coversAt, ?_⟩
    rintro p q hlarge i ⟨d, hd, hcov⟩
    have hle := le_of_covers (List.mem_of_getElem? hd) hcov
    omega

/-- The ten dominoes with pips up to three, one of them with a three and a one. -/
theorem completeSet_positions_three :
    setSize 3 = .ok 10 ∧ ∃ ds, completeSet 3 = .ok ds ∧ ds.length = 10 ∧
      (∃! i, CoversAt ds 3 1 i) ∧ ∀ i, ¬ CoversAt ds 4 1 i := by
  obtain ⟨hsize, hmade, hset⟩ := completeSet_positions (n := 3) (by decide)
  obtain ⟨ds, hds⟩ := hmade (by decide)
  obtain ⟨hlength, -, -, hone, hnone⟩ := hset ds hds
  exact ⟨hsize, ds, hds, hlength, hone 3 1 (by decide) (by decide), hnone 4 1 (.inl (by decide))⟩

end DominoTiling.Domino
