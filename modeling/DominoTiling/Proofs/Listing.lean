import DominoTiling.Drawing
import DominoTiling.Proofs.CompleteSet
import DominoTiling.Text.Digits

/-!
# The listing of a set

A listing has one line for each pip count, with the dominoes on the line of their second side. The set
is made by first sides, so its lines are the columns of a triangle (`filter_side2_upTo`).

A domino begins with a bracket and ends with one, and there are no others in its text. So its text
stands in a listing only where it is itself listed, and occurrences of the text can be counted: as many
as the list holds of the domino, all of them on the line of its second side, and none if there is no
such line (`listing_shows`).
-/

namespace DominoTiling

/-! ### Occurrences of a text -/

namespace Text
variable {c : Char} {pattern text rest : List Char}

/-- The number of places at which one text stands in another. -/
def occurrences (pattern : List Char) : List Char → Nat
  | [] => 0
  | c :: cs => (if pattern.isPrefixOf (c :: cs) then 1 else 0) + occurrences pattern cs

/-- A text begins only where its first character stands. -/
theorem occurrences_append (h : c ∉ text) :
    occurrences (c :: pattern) (text ++ rest) = occurrences (c :: pattern) rest := by
  induction text with
  | nil => rfl
  | cons a text ih =>
    obtain ⟨hne, htext⟩ := List.ne_and_not_mem_of_not_mem_cons h
    simp [occurrences, hne, ih htext]

/-- The text is made up of these lines, each with a line end. -/
structure HasLines (text : List Char) (lines : List (List Char)) : Prop where
  noBreak : ∀ line ∈ lines, '\n' ∉ line
  eq : text = lines.flatMap fun line => line ++ ['\n']

end Text

namespace Domino
variable {d e : Domino} {rest : List Char} {m n p : Nat}

/-! ### Dominoes in a text -/

/-- A domino behind its first bracket. -/
def inner (d : Domino) : List Char :=
  Nat.toDigits 10 d.side1 ++ '|' :: Nat.toDigits 10 d.side2 ++ [']']

theorem chars_eq (d : Domino) : d.chars = '[' :: d.inner := rfl

theorem notMem_inner {c : Char} (hdigit : c.isDigit = false) (hbar : c ≠ '|') (hclose : c ≠ ']') :
    c ∉ d.inner := by
  simp [inner, Text.notMem_toDigits hdigit, hbar, hclose]

theorem isPrefixOf_chars_append : d.chars.isPrefixOf (e.chars ++ rest) = true ↔ d = e := by
  rw [List.isPrefixOf_iff_prefix]
  constructor
  · rintro ⟨r, hr⟩
    simp only [chars, List.cons_append, List.append_assoc, List.nil_append, List.cons.injEq,
      true_and] at hr
    obtain ⟨h1, hr⟩ := Text.toDigits_append_inj (by decide) hr
    obtain ⟨h2, -⟩ := Text.toDigits_append_inj (by decide) hr
    obtain ⟨_, _⟩ := d
    obtain ⟨_, _⟩ := e
    exact congrArg₂ Domino.mk h1 h2
  · rintro rfl
    exact List.prefix_append ..

/-! ### Lines of dominoes -/

/-- These dominoes one after the other, each with a blank behind it. -/
def lineText (ds : List Domino) : List Char := ds.flatMap fun d => d.chars ++ [' ']

theorem noBreak_lineText (ds : List Domino) : '\n' ∉ lineText ds := by
  intro h
  obtain ⟨d, -, hd⟩ := List.mem_flatMap.1 h
  have hinner : '\n' ∉ d.inner := notMem_inner (by decide) (by decide) (by decide)
  simp [chars_eq, hinner] at hd

/-- Behind its first bracket a domino lets no other one begin. -/
theorem occurrences_lineText_append {ds : List Domino} :
    Text.occurrences d.chars (lineText ds ++ rest) = ds.count d + Text.occurrences d.chars rest := by
  induction ds with
  | nil => simp [lineText]
  | cons e ds ih =>
    have hbehind : '[' ∉ e.inner ++ [' '] := by
      have hinner : '[' ∉ e.inner := notMem_inner (by decide) (by decide) (by decide)
      simp [hinner]
    have hrest : Text.occurrences d.chars (e.inner ++ [' '] ++ (lineText ds ++ rest)) =
        ds.count d + Text.occurrences d.chars rest :=
      (Text.occurrences_append hbehind).trans ih
    have hsplit : lineText (e :: ds) ++ rest = '[' :: (e.inner ++ [' '] ++ (lineText ds ++ rest)) := by
      simp [lineText, chars_eq]
    have hhead : d.chars.isPrefixOf ('[' :: (e.inner ++ [' '] ++ (lineText ds ++ rest))) = true ↔
        d = e := by
      rw [List.append_assoc, ← List.cons_append, ← chars_eq]
      exact isPrefixOf_chars_append
    rw [hsplit, Text.occurrences, hrest, List.count_cons]
    by_cases hde : d = e
    · rw [if_pos (hhead.2 hde), if_pos (by simp [hde])]
      omega
    · rw [if_neg (fun h => hde (hhead.1 h)), if_neg (by simpa using Ne.symm hde)]
      omega

theorem occurrences_lineText {ds : List Domino} :
    Text.occurrences d.chars (lineText ds) = ds.count d := by
  have h : Text.occurrences d.chars (lineText ds ++ []) = ds.count d + Text.occurrences d.chars [] :=
    occurrences_lineText_append
  rwa [List.append_nil] at h

/-- The dominoes of a set with one second side, in the order of the first. -/
theorem filter_side2_upTo (h : p ≤ n) :
    ((upTo n).filter fun d => d.side2 == p) = (List.range (p + 1)).map fun i => ⟨i, p⟩ := by
  refine List.Perm.eq_of_pairwise ?_ ((pairwise_upTo n).filter _)
    (List.pairwise_map.2 (List.pairwise_lt_range.imp fun hij => .inl hij))
    ((List.perm_ext_iff_of_nodup ((nodup_upTo n).filter _) ?_).2 ?_)
  · intro d d' _ _ hlt hlt'
    omega
  · exact List.nodup_range.map fun i j hij => congrArg side1 hij
  · intro d
    simp only [List.mem_filter, mem_upTo, beq_iff_eq, List.mem_map, List.mem_range]
    constructor
    · rintro ⟨⟨hle, -⟩, rfl⟩
      exact ⟨d.side1, Nat.lt_succ_of_le hle, rfl⟩
    · rintro ⟨i, hi, rfl⟩
      exact ⟨⟨Nat.le_of_lt_succ hi, h⟩, rfl⟩

end Domino

namespace Drawing
open Domino (lineText)
variable {ds : List Domino} {d : Domino} {n : Nat}

theorem hasLines_dominoes (ds : List Domino) (n : Nat) :
    Text.HasLines (dominoes ds n).toList
      ((List.range (n + 1)).map fun p => lineText (ds.filter fun d => d.side2 == p)) := by
  refine ⟨?_, ?_⟩
  · intro line hline
    obtain ⟨p, -, rfl⟩ := List.mem_map.1 hline
    exact Domino.noBreak_lineText _
  · rw [dominoes, String.toList_ofList, List.flatMap_map]
    rfl

theorem count_filter_side2 (ds : List Domino) (d : Domino) (p : Nat) :
    (ds.filter fun e => e.side2 == p).count d = if d.side2 = p then ds.count d else 0 := by
  by_cases h : d.side2 = p
  · rw [if_pos h]
    exact List.count_filter (by simpa using h)
  · rw [if_neg h, List.count_eq_zero]
    intro hmem
    exact h (by simpa using (List.mem_filter.1 hmem).2)

theorem occurrences_pipLines (ds : List Domino) (d : Domino) (ps : List Nat) :
    Text.occurrences d.chars (ps.flatMap (pipLine ds)) =
      (ps.flatMap fun p => ds.filter fun e => e.side2 == p).count d := by
  induction ps with
  | nil => rfl
  | cons p ps ih =>
    have hline : (p :: ps).flatMap (pipLine ds) =
        lineText (ds.filter fun e => e.side2 == p) ++ (['\n'] ++ ps.flatMap (pipLine ds)) := by
      simp [pipLine, lineText]
    have hbreak : Text.occurrences d.chars (['\n'] ++ ps.flatMap (pipLine ds)) =
        Text.occurrences d.chars (ps.flatMap (pipLine ds)) := Text.occurrences_append (by decide)
    rw [hline, Domino.occurrences_lineText_append, hbreak, ih, List.flatMap_cons, List.count_append]

/-- Each line takes the dominoes of its own second side out of the list. -/
theorem count_listed (ds : List Domino) (d : Domino) (m : Nat) :
    ((List.range m).flatMap fun p => ds.filter fun e => e.side2 == p).count d =
      if d.side2 < m then ds.count d else 0 := by
  induction m with
  | zero => simp
  | succ m ih =>
    simp only [List.range_succ, List.flatMap_append, List.flatMap_singleton, List.count_append, ih,
      count_filter_side2]
    rcases Nat.lt_trichotomy d.side2 m with hlt | heq | hgt
    · rw [if_pos hlt, if_neg (Nat.ne_of_lt hlt), if_pos (Nat.lt_succ_of_lt hlt), Nat.add_zero]
    · rw [if_neg (by omega), if_pos heq, if_pos (by omega), Nat.zero_add]
    · rw [if_neg (by omega), if_neg (by omega), if_neg (by omega)]

theorem occurrences_dominoes (ds : List Domino) (d : Domino) (n : Nat) :
    Text.occurrences d.chars (dominoes ds n).toList = if d.side2 ≤ n then ds.count d else 0 := by
  rw [dominoes, String.toList_ofList, occurrences_pipLines, count_listed]
  simp only [Nat.lt_succ_iff]

/-- The listing of the complete set, made wherever its size can be stored, has a line for each pip count
with the dominoes that have it as second side, by their first sides, and each domino of the set stands in
it once. Of any list of dominoes each line holds those with its second side in their order. A domino
stands on that line as often as in the list and on no other line, so it is listed if and only if its
second side is no larger than the largest pip count. -/
theorem listing_shows (n : Nat) :
    (n < 2 ^ 32 - 1 →
      (8 * ((n + 1) * (n + 2) / 2) < 2 ^ 63 → ∃ ds, Domino.completeSet n = .ok ds) ∧
      ∀ ds, Domino.completeSet n = .ok ds →
        Text.HasLines (dominoes ds n).toList
          ((List.range (n + 1)).map fun p => lineText ((List.range (p + 1)).map fun i => ⟨i, p⟩)) ∧
        ∀ d ∈ ds, Text.occurrences d.chars (dominoes ds n).toList = 1) ∧
    ∀ ds : List Domino,
      Text.HasLines (dominoes ds n).toList
        ((List.range (n + 1)).map fun p => lineText (ds.filter fun d => d.side2 == p)) ∧
      (∀ d p, Text.occurrences d.chars (lineText (ds.filter fun e => e.side2 == p)) =
        if d.side2 = p then ds.count d else 0) ∧
      ∀ d, Text.occurrences d.chars (dominoes ds n).toList =
        if d.side2 ≤ n then ds.count d else 0 := by
  refine ⟨fun hlt => ⟨?_, ?_⟩, ?_⟩
  · intro hroom
    exact ⟨_, Domino.completeSet_of_lt hlt ((Domino.length_upTo n).symm ▸ hroom)⟩
  · intro ds hds
    obtain rfl := Domino.eq_upTo_of_completeSet hds
    have hlines : ((List.range (n + 1)).map fun p =>
          lineText ((Domino.upTo n).filter fun d => d.side2 == p)) =
        (List.range (n + 1)).map fun p => lineText ((List.range (p + 1)).map fun i => ⟨i, p⟩) := by
      refine List.map_congr_left ?_
      intro p hp
      rw [Domino.filter_side2_upTo (Nat.le_of_lt_succ (List.mem_range.1 hp))]
    refine ⟨hlines ▸ hasLines_dominoes _ n, ?_⟩
    intro d hd
    rw [occurrences_dominoes, if_pos (Domino.mem_upTo.1 hd).2]
    exact List.count_eq_one_of_mem (Domino.nodup_upTo n) hd
  · intro ds
    refine ⟨hasLines_dominoes ds n, ?_, fun d => occurrences_dominoes ds d n⟩
    intro d p
    rw [Domino.occurrences_lineText, count_filter_side2]

/-- Three lines for the set with pips up to two. Of another list the copies of a domino are all listed,
and one with a larger second side is not. -/
theorem listing_shows_two :
    (∃ ds, Domino.completeSet 2 = .ok ds ∧
      Text.HasLines (dominoes ds 2).toList
        ["[0|0] ".toList, "[0|1] [1|1] ".toList, "[0|2] [1|2] [2|2] ".toList] ∧
      Text.occurrences "[1|2]".toList (dominoes ds 2).toList = 1) ∧
    Text.occurrences "[2|0]".toList (dominoes [⟨2, 0⟩, ⟨0, 5⟩, ⟨2, 0⟩] 4).toList = 2 ∧
    Text.occurrences "[0|5]".toList (dominoes [⟨2, 0⟩, ⟨0, 5⟩, ⟨2, 0⟩] 4).toList = 0 := by
  obtain ⟨hset, -⟩ := listing_shows 2
  obtain ⟨hmade, hlisted⟩ := hset (by decide)
  obtain ⟨ds, hds⟩ := hmade (by decide)
  obtain ⟨hlines, honce⟩ := hlisted ds hds
  obtain ⟨-, hany⟩ := listing_shows 4
  obtain ⟨-, -, hcount⟩ := hany [⟨2, 0⟩, ⟨0, 5⟩, ⟨2, 0⟩]
  refine ⟨⟨ds, hds, hlines, honce ⟨1, 2⟩ ?_⟩, hcount ⟨2, 0⟩, hcount ⟨0, 5⟩⟩
  rw [Domino.eq_upTo_of_completeSet hds]
  decide

end Drawing
end DominoTiling
