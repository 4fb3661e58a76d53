/-!
# Decimal digits

The ten digits of ASCII, the only ones that numbers are written with here.
-/

namespace DominoTiling.Text

def isDigit (c : Char) : Bool := '0' ≤ c && c ≤ '9'

def digitValue (c : Char) : Nat := c.toNat - '0'.toNat

/-- The number that a run of digits writes. -/
def numberOf (digits : List Char) : Nat := digits.foldl (fun n c => n * 10 + digitValue c) 0

/-! ### Numbers written out -/

theorem notMem_toDigits {c : Char} (hc : c.isDigit = false) (n : Nat) : c ∉ Nat.toDigits 10 n := by
  intro h
  rw [Nat.isDigit_of_mem_toDigits (by decide) (by decide) h] at hc
  cases hc

/-- A number ends where a character stands behind it that is no digit. -/
theorem toDigits_append_inj {c : Char} (hc : c.isDigit = false) {m n : Nat} {r r' : List Char}
    (h : Nat.toDigits 10 m ++ c :: r = Nat.toDigits 10 n ++ c :: r') : m = n ∧ r = r' := by
  have htake : ∀ (k : Nat) (r : List Char),
      (Nat.toDigits 10 k ++ c :: r).takeWhile Char.isDigit = Nat.toDigits 10 k := by
    intro k r
    rw [List.takeWhile_append_of_pos, List.takeWhile_cons_of_neg (by simp [hc]), List.append_nil]
    intro a ha
    exact Nat.isDigit_of_mem_toDigits (by decide) (by decide) ha
  have hdigits : Nat.toDigits 10 m = Nat.toDigits 10 n := by
    rw [← htake m r, h, htake]
  have hvalue := congrArg (fun cs => Nat.ofDigitChars 10 cs 0) hdigits
  simp only [Nat.ofDigitChars_ten_toDigits] at hvalue
  rw [hdigits] at h
  exact ⟨hvalue, List.tail_eq_of_cons_eq (List.append_cancel_left h)⟩

end DominoTiling.Text
