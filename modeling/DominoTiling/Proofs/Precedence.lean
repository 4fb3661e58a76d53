import DominoTiling.Settings
import Mathlib.Data.List.TakeWhile

/-!
# Which setting wins

A file adds texts to an environment and replaces none. So the text of a variable afterwards is the one
it had before, else that of its first assignment in front of the first bad line of the file (`Chosen`),
whether or not there is such a line. A variable that is set to bytes which are not in UTF-8 has no text,
so it is assigned like one that is not set; a line that is not in UTF-8 is a bad line.

The settings are read from there. A value counts if it writes a positive number (`IsCount`), and one
that another hides is never looked at: not the second assignment of a name, nor any assignment of one
that had a value (`ofEnvironment_load`).
-/

namespace DominoTiling

/-! ### Values that write a number -/

namespace Text
variable {front text back : List Char}

theorem isBlank_of_isDigit {c : Char} (h : isDigit c = true) : isBlank c = false := by
  simp only [isDigit, Bool.and_eq_true, decide_eq_true_eq] at h
  have hlow : 48 ≤ c.toNat := h.1
  have hhigh : c.toNat ≤ 57 := h.2
  have hranges : ∀ r ∈ blankRanges, r.2 < 48 ∨ 57 < r.1 := by decide
  rw [isBlank, inRanges, List.any_eq_false]
  intro r hr
  have hr := hranges r hr
  simp only [Bool.and_eq_true, decide_eq_true_eq]
  omega

theorem exists_trim (text : List Char) :
    ∃ front back, text = front ++ trim text ++ back ∧ ∀ c ∈ front ++ back, isBlank c = true := by
  have hend : trimStart text = trim text ++ ((trimStart text).reverse.takeWhile isBlank).reverse := by
    rw [trim, trimEnd, ← List.reverse_append, List.takeWhile_append_dropWhile, List.reverse_reverse]
  refine ⟨text.takeWhile isBlank, ((trimStart text).reverse.takeWhile isBlank).reverse, ?_, ?_⟩
  · rw [List.append_assoc, ← hend, trimStart, List.takeWhile_append_dropWhile]
  · intro c hc
    rcases List.mem_append.1 hc with hc | hc
    · exact List.mem_takeWhile_imp hc
    · exact List.mem_takeWhile_imp (List.mem_reverse.1 hc)

theorem dropWhile_eq_self (h : ∀ c ∈ text, isBlank c = false) : text.dropWhile isBlank = text := by
  cases text with
  | nil => rfl
  | cons c text => exact List.dropWhile_cons_of_neg (Bool.eq_false_iff.1 (h c (List.mem_cons_self ..)))

theorem trim_append (hblank : ∀ c ∈ front ++ back, isBlank c = true)
    (htext : ∀ c ∈ text, isBlank c = false) (hne : text ≠ []) : trim (front ++ text ++ back) = text := by
  have hstart : trimStart (front ++ text ++ back) = text ++ back := by
    rw [trimStart, List.append_assoc, List.dropWhile_append_of_pos fun c hc =>
      hblank c (List.mem_append_left _ hc)]
    obtain ⟨c, cs, rfl⟩ := List.exists_cons_of_ne_nil hne
    exact List.dropWhile_cons_of_neg (Bool.eq_false_iff.1 (htext c (List.mem_cons_self ..)))
  rw [trim, hstart, trimEnd, List.reverse_append, List.dropWhile_append_of_pos fun c hc =>
    hblank c (List.mem_append_right _ (List.mem_reverse.1 hc)),
    dropWhile_eq_self fun c hc => htext c (List.mem_reverse.1 hc), List.reverse_reverse]

theorem numberOf_eq (digits : List Char) : numberOf digits = Nat.ofDigitChars 10 digits 0 := by
  rw [numberOf, Nat.ofDigitChars]
  refine congrArg (fun f => digits.foldl f 0) (funext fun n => funext fun c => ?_)
  rw [Nat.mul_comm, digitValue]

end Text

/-- Blank space around it apart, the value is a number from 1 on that a word can hold, in decimal
digits with an optional plus. -/
def IsCount (value : String) (n : Nat) : Prop :=
  ∃ front sign digits back, value.toList = front ++ (sign ++ digits) ++ back ∧
    (∀ c ∈ front ++ back, Text.isBlank c = true) ∧ (sign = [] ∨ sign = ['+']) ∧ digits ≠ [] ∧
    (∀ c ∈ digits, Text.isDigit c = true) ∧ n = Nat.ofDigitChars 10 digits 0 ∧ 1 ≤ n ∧ n < 2 ^ 64

section
variable {sign digits text : List Char} {value key : String} {n : Nat} {env : Environment}

/-- A sign, and no further plus behind it. -/
def Signed (sign digits : List Char) : Prop := sign = [] ∧ digits.head? ≠ some '+' ∨ sign = ['+']

theorem exists_signed (text : List Char) : ∃ sign digits, text = sign ++ digits ∧ Signed sign digits := by
  by_cases hplus : text.head? = some '+'
  · obtain ⟨rest, rfl⟩ := List.head?_eq_some_iff.1 hplus
    exact ⟨['+'], rest, rfl, .inr rfl⟩
  · exact ⟨[], text, rfl, .inl ⟨rfl, hplus⟩⟩

theorem readCount_signed (h : Signed sign digits) :
    readCount (sign ++ digits) = some n ↔ digits ≠ [] ∧ (∀ c ∈ digits, Text.isDigit c = true) ∧
      n = Nat.ofDigitChars 10 digits 0 ∧ n < 2 ^ 64 := by
  have hsplit : readCount (sign ++ digits) =
      if digits.isEmpty ∨ !digits.all Text.isDigit then none
      else if Text.numberOf digits < 2 ^ 64 then some (Text.numberOf digits) else none := by
    rcases h with ⟨rfl, hhead⟩ | rfl
    · rw [List.nil_append, readCount]
      rintro rest rfl
      exact hhead rfl
    · rfl
  have hdigits : ¬ (digits.isEmpty = true ∨ (!digits.all Text.isDigit) = true) ↔
      digits ≠ [] ∧ ∀ c ∈ digits, Text.isDigit c = true := by
    simp
  rw [hsplit, Text.numberOf_eq, ← and_assoc, ← hdigits]
  constructor
  · intro h
    split at h
    · cases h
    · rename_i hgood
      split at h
      · rename_i hlt
        cases h
        exact ⟨hgood, rfl, hlt⟩
      · cases h
  · rintro ⟨hgood, rfl, hlt⟩
    rw [if_neg hgood, if_pos hlt]

theorem readCount_eq_some_iff :
    readCount text = some n ↔ ∃ sign digits, text = sign ++ digits ∧ (sign = [] ∨ sign = ['+']) ∧
      digits ≠ [] ∧ (∀ c ∈ digits, Text.isDigit c = true) ∧ n = Nat.ofDigitChars 10 digits 0 ∧
      n < 2 ^ 64 := by
  constructor
  · intro h
    obtain ⟨sign, digits, rfl, hsign⟩ := exists_signed text
    exact ⟨sign, digits, rfl, hsign.imp_left And.left, (readCount_signed hsign).1 h⟩
  · rintro ⟨sign, digits, rfl, hsign, hne, hdigits, hn⟩
    refine (readCount_signed (hsign.imp_left fun h => ⟨h, fun hhead => ?_⟩)).2 ⟨hne, hdigits, hn⟩
    exact absurd (hdigits '+' (List.mem_of_mem_head? hhead)) (by decide)

theorem isCount_iff : IsCount value n ↔ readCount (Text.trim value.toList) = some n ∧ 0 < n := by
  constructor
  · rintro ⟨front, sign, digits, back, hvalue, hblank, hsign, hne, hdigits, hn, hpos, hlt⟩
    have htext : ∀ c ∈ sign ++ digits, Text.isBlank c = false := by
      intro c hc
      rcases List.mem_append.1 hc with hc | hc
      · rcases hsign with rfl | rfl
        · cases hc
        · rw [List.mem_singleton.1 hc]
          rfl
      · exact Text.isBlank_of_isDigit (hdigits c hc)
    rw [hvalue, Text.trim_append hblank htext (List.append_ne_nil_of_right_ne_nil _ hne)]
    exact ⟨readCount_eq_some_iff.2 ⟨sign, digits, rfl, hsign, hne, hdigits, hn, hlt⟩, hpos⟩
  · rintro ⟨hread, hpos⟩
    obtain ⟨front, back, hvalue, hblank⟩ := Text.exists_trim value.toList
    obtain ⟨sign, digits, htrim, hsign, hne, hdigits, hn, hlt⟩ := readCount_eq_some_iff.1 hread
    rw [htrim] at hvalue
    exact ⟨front, sign, digits, back, hvalue, hblank, hsign, hne, hdigits, hn, hpos, hlt⟩

/-- What a setting is when this is found for it. A setting without a value has its default. -/
def Counts : Option String → Option Nat → Prop
  | none, none => True
  | some value, some n => IsCount value n
  | _, _ => False

namespace Settings

theorem readSetting_of_some (h : env.text key = some value) :
    (∃ n, IsCount value n ∧ readSetting env key = .ok (some n)) ∨
      (∀ n, ¬ IsCount value n) ∧ readSetting env key = .error (.invalidSetting key value) := by
  simp only [isCount_iff, readSetting, h]
  rcases hread : readCount (Text.trim value.toList) with _ | n
  · exact .inr ⟨fun n hn => (by cases hn.1), rfl⟩
  · by_cases hpos : 0 < n
    · exact .inl ⟨n, ⟨rfl, hpos⟩, if_pos hpos⟩
    · refine .inr ⟨fun m hm => ?_, if_neg hpos⟩
      obtain rfl : n = m := Option.some.inj hm.1
      exact hpos hm.2

theorem readSetting_eq_ok_iff {m : Option Nat} :
    readSetting env key = .ok m ↔ Counts (env.text key) m := by
  rcases hvalue : env.text key with _ | value
  · have hread : readSetting env key = .ok none := by rw [readSetting, hvalue]
    rw [hread]
    cases m <;> simp [Counts]
  · rcases readSetting_of_some hvalue with ⟨n, hn, hread⟩ | ⟨hnot, hread⟩
    · rw [hread]
      cases m with
      | none => simp [Counts]
      | some m =>
        refine ⟨fun h => ?_, fun hm => ?_⟩
        · cases h
          exact hn
        · have hnm := (isCount_iff.1 hn).1.symm.trans (isCount_iff.1 hm).1
          exact congrArg Except.ok hnm
    · rw [hread]
      refine ⟨fun h => (by cases h), fun hm => ?_⟩
      cases m with
      | none => cases hm
      | some m => exact absurd hm (hnot m)

theorem readSetting_eq_error_iff {e : PuzzleError} :
    readSetting env key = .error e ↔
      ∃ value, env.text key = some value ∧ (∀ n, ¬ IsCount value n) ∧
        e = .invalidSetting key value := by
  constructor
  · intro h
    rcases hvalue : env.text key with _ | value
    · rw [readSetting, hvalue] at h
      cases h
    · rcases readSetting_of_some hvalue with ⟨n, -, hread⟩ | ⟨hnot, hread⟩
      · rw [hread] at h
        cases h
      · exact ⟨value, rfl, hnot, Except.error.inj (h.symm.trans hread)⟩
  · rintro ⟨value, hvalue, hnot, rfl⟩
    rcases readSetting_of_some hvalue with ⟨n, hn, -⟩ | ⟨-, hread⟩
    · exact absurd hn (hnot n)
    · exact hread

end Settings
end

/-! ### Values of an environment -/

namespace EnvFile
variable {env env' : Environment} {a : Assignment} {as bs : List Assignment} {key : String}
  {v : Option String} {value : String}

theorem assign_eq_ok (h : assign env a = .ok env') :
    (env.text a.name).isSome = true ∧ env' = env ∨
      env.text a.name = none ∧ env' = fun name =>
        if name = a.name then some (String.ofList (a.text env)).toUTF8 else env name := by
  unfold assign at h
  split at h
  · rename_i hset
    exact .inl ⟨hset, (Except.ok.inj h).symm⟩
  · rename_i hset
    split at h
    · cases h
    · exact .inr ⟨by simpa using hset, (Except.ok.inj h).symm⟩

theorem assign_eq_error_iff {fault : Fault} : assign env a = .error fault ↔
    env.text a.name = none ∧ '\x00' ∈ a.text env ∧ fault = .nulInValue := by
  constructor
  · intro h
    unfold assign at h
    split at h
    · cases h
    · rename_i hset
      split at h
      · rename_i hnul
        exact ⟨by simpa using hset, hnul, (Except.error.inj h).symm⟩
      · cases h
  · rintro ⟨hunset, hnul, rfl⟩
    rw [assign, hunset, if_neg (by decide), if_pos hnul]

theorem assign_of_ne (h : assign env a = .ok env') (hkey : a.name ≠ key) : env' key = env key := by
  rcases assign_eq_ok h with ⟨-, rfl⟩ | ⟨-, rfl⟩
  · rfl
  · exact if_neg (Ne.symm hkey)

/-- An assignment leaves a text under its name. -/
theorem assign_of_none (h : assign env a = .ok env') (hunset : env.text a.name = none) :
    env'.text a.name = some (String.ofList (a.text env)) := by
  rcases assign_eq_ok h with ⟨hset, -⟩ | ⟨-, rfl⟩
  · rw [hunset] at hset
    cases hset
  · exact Environment.text_of_toUTF8 (if_pos rfl)

theorem assign_keeps (h : assign env a = .ok env') (hkey : env.text key = some value) :
    env'.text key = some value := by
  rcases assign_eq_ok h with ⟨-, rfl⟩ | ⟨hunset, -⟩
  · exact hkey
  · have hne : a.name ≠ key := by
      rintro rfl
      rw [hunset] at hkey
      cases hkey
    exact (Environment.text_congr (assign_of_ne h hne)).trans hkey

theorem extend_keeps (hkey : env.text key = some value) : (extend env as).1.text key = some value := by
  induction as generalizing env with
  | nil => exact hkey
  | cons a as ih =>
    rw [extend]
    split
    · rename_i env' hassign
      exact ih (assign_keeps hassign hkey)
    · exact hkey

theorem extend_of_ne (hkey : ∀ a ∈ as, a.name ≠ key) : (extend env as).1 key = env key := by
  induction as generalizing env with
  | nil => rfl
  | cons a as ih =>
    obtain ⟨hname, hkey⟩ := List.forall_mem_cons.1 hkey
    rw [extend]
    split
    · rename_i env' hassign
      exact (ih hkey).trans (assign_of_ne hassign hname)
    · rfl

theorem text_extend_of_ne (hkey : ∀ a ∈ as, a.name ≠ key) :
    (extend env as).1.text key = env.text key :=
  Environment.text_congr (extend_of_ne hkey)

theorem extend_append (h : (extend env as).2 = none) (bs : List Assignment) :
    extend env (as ++ bs) = extend (extend env as).1 bs := by
  induction as generalizing env with
  | nil => rfl
  | cons a as ih =>
    simp only [List.cons_append, extend] at h ⊢
    split at h
    · exact ih h
    · cases h

theorem extend_of_append (h : (extend env (as ++ bs)).2 = none) : (extend env as).2 = none := by
  induction as generalizing env with
  | nil => rfl
  | cons a as ih =>
    simp only [List.cons_append, extend] at h ⊢
    split at h
    · exact ih h
    · cases h

/-- The first of the assignments that cannot be made would put a NUL character into a value. -/
def StopsAtNul (env : Environment) (as : List Assignment) : Prop :=
  ∃ front a rest, as = front ++ a :: rest ∧ (extend env front).2 = none ∧
    (extend env front).1.text a.name = none ∧ '\x00' ∈ a.text (extend env front).1

theorem stopsAtNul_of_fault {fault : Fault} (h : (extend env as).2 = some fault) :
    fault = .nulInValue ∧ StopsAtNul env as := by
  induction as generalizing env with
  | nil => cases h
  | cons a as ih =>
    rw [extend] at h
    split at h
    · rename_i env' hassign
      obtain ⟨hfault, front, a', rest, rfl, hmade, hunset, hnul⟩ := ih h
      have hfront : extend env (a :: front) = extend env' front := by rw [extend, hassign]
      rw [← hfront] at hmade hunset hnul
      exact ⟨hfault, a :: front, a', rest, rfl, hmade, hunset, hnul⟩
    · rename_i fault' hassign
      obtain rfl : fault' = fault := Option.some.inj h
      obtain ⟨hunset, hnul, hfault⟩ := assign_eq_error_iff.1 hassign
      exact ⟨hfault, [], a, as, rfl, rfl, hunset, hnul⟩

theorem StopsAtNul.fault (h : StopsAtNul env as) : (extend env as).2 = some .nulInValue := by
  obtain ⟨front, a, rest, rfl, hmade, hunset, hnul⟩ := h
  rw [extend_append hmade, extend, assign_eq_error_iff.2 ⟨hunset, hnul, rfl⟩]

/-- The text of a variable after assignments to an environment: the one it had, else that of its first
assignment. References in that find what the assignments in front of it have left. -/
inductive Chosen (env : Environment) (as : List Assignment) (key : String) : Option String → Prop
  | kept {value : String} (h : env.text key = some value) : Chosen env as key (some value)
  | assigned {front rest : List Assignment} {a : Assignment} (hunset : env.text key = none)
      (has : as = front ++ a :: rest) (hname : a.name = key) (hfirst : ∀ a' ∈ front, a'.name ≠ key) :
      Chosen env as key (some (String.ofList (a.text (extend env front).1)))
  | unset (hunset : env.text key = none) (has : ∀ a ∈ as, a.name ≠ key) : Chosen env as key none

theorem exists_chosen (env : Environment) (as : List Assignment) (key : String) :
    ∃ v, Chosen env as key v := by
  rcases hkey : env.text key with _ | value
  · rcases hfind : as.find? (fun a => a.name == key) with _ | a
    · exact ⟨none, .unset hkey fun a ha => by simpa using List.find?_eq_none.1 hfind a ha⟩
    · obtain ⟨hname, front, rest, has, hfirst⟩ := List.find?_eq_some_iff_append.1 hfind
      exact ⟨_, .assigned hkey has (by simpa using hname) fun a' ha' => by simpa using hfirst a' ha'⟩
  · exact ⟨some value, .kept hkey⟩

theorem Chosen.extend_eq (h : Chosen env as key v) (hmade : (extend env as).2 = none) :
    (extend env as).1.text key = v := by
  cases h with
  | kept hkey => exact extend_keeps hkey
  | @assigned front rest a hunset has hname hfirst =>
    subst has
    have happend := extend_append (extend_of_append hmade) (a :: rest)
    rw [happend] at hmade ⊢
    -- nothing in front of it has given the variable a text, and nothing behind it changes that
    have hbefore : (extend env front).1.text a.name = none := by
      rw [hname, text_extend_of_ne hfirst, hunset]
    rw [extend] at hmade ⊢
    split at hmade
    · rename_i env' hassign
      exact extend_keeps (hname ▸ assign_of_none hassign hbefore)
    · cases hmade
  | unset hunset has => exact (text_extend_of_ne has).trans hunset

theorem extend_eq_iff_chosen (hmade : (extend env as).2 = none) :
    (extend env as).1.text key = v ↔ Chosen env as key v := by
  constructor
  · rintro rfl
    obtain ⟨v, hv⟩ := exists_chosen env as key
    rwa [hv.extend_eq hmade]
  · exact fun h => h.extend_eq hmade

/-! ### Files -/

/-- The lines of a file as they are read. -/
def File.lines : File → List (Except Cause (List Char))
  | .content bytes => EnvFile.lines bytes
  | .missing | .refused _ => []

/-- What a line says. -/
def lineAssignment (line : Except Cause (List Char)) : Except Cause (Option Assignment) :=
  line >>= fun text => (readLine text).mapError .line

/-- The assignments of a file in front of its first bad line. -/
def File.assignments (file : File) : List Assignment :=
  ((file.lines.map lineAssignment).takeWhile Except.isOk).filterMap fun said => said.toOption.join

theorem assignments_readLines (lines : List (Except Cause (List Char))) :
    (readLines lines).assignments =
      ((lines.map lineAssignment).takeWhile Except.isOk).filterMap fun said => said.toOption.join := by
  induction lines with
  | nil => rfl
  | cons line lines ih =>
    cases line with
    | error cause => rfl
    | ok line =>
      have hsame : lineAssignment (.ok line) = (readLine line).mapError .line := rfl
      rw [readLines, List.map_cons, hsame]
      cases hline : readLine line with
      | error fault => rfl
      | ok said =>
        cases said with
        | none => exact ih
        | some a => exact congrArg (a :: ·) ih

theorem load_eq (env : Environment) (file : File) :
    (load env file).1 = (extend env file.assignments).1 ∧
      ∀ fault, (load env file).2 = .error (.fault fault) ↔
        (extend env file.assignments).2 = some fault := by
  cases file with
  | missing | refused => exact ⟨rfl, fun fault => ⟨fun h => (by cases h), fun h => (by cases h)⟩⟩
  | content bytes =>
    have hcontents : (File.content bytes).assignments = (read bytes).assignments :=
      (assignments_readLines _).symm
    rw [hcontents]
    refine ⟨rfl, fun fault => ?_⟩
    simp only [load]
    cases (extend env (read bytes).assignments).2 with
    | some fault' => simp
    | none => cases (read bytes).cause <;> simp

end EnvFile

/-! ### Settings -/

namespace Settings
open EnvFile
variable {env : Environment}

theorem ofEnvironment_eq_ok_iff {settings : Settings} :
    ofEnvironment env = .ok settings ↔ readSetting env workersKey = .ok settings.workers ∧
      readSetting env enumerateLimitKey = .ok settings.enumerateLimit := by
  constructor
  · intro h
    obtain ⟨workers, hworkers, h⟩ := bind_eq_ok_iff.1 h
    obtain ⟨limit, hlimit, h⟩ := bind_eq_ok_iff.1 h
    cases h
    exact ⟨hworkers, hlimit⟩
  · rintro ⟨hworkers, hlimit⟩
    exact bind_eq_ok_iff.2 ⟨_, hworkers, bind_eq_ok_iff.2 ⟨_, hlimit, rfl⟩⟩

theorem ofEnvironment_eq_error_iff {e : PuzzleError} :
    ofEnvironment env = .error e ↔ readSetting env workersKey = .error e ∨
      (∃ n, readSetting env workersKey = .ok n) ∧ readSetting env enumerateLimitKey = .error e := by
  constructor
  · intro h
    rcases bind_eq_error_iff.1 h with hworkers | ⟨workers, hworkers, h⟩
    · exact .inl hworkers
    · rcases bind_eq_error_iff.1 h with hlimit | ⟨limit, -, h⟩
      · exact .inr ⟨⟨workers, hworkers⟩, hlimit⟩
      · cases h
  · rintro (hworkers | ⟨⟨n, hn⟩, hlimit⟩)
    · exact bind_eq_error_iff.2 (.inl hworkers)
    · exact bind_eq_error_iff.2 (.inr ⟨n, hn, bind_eq_error_iff.2 (.inl hlimit)⟩)

/-- The value chosen for a setting makes it this one. -/
def Uses (env : Environment) (as : List Assignment) (key : String) (n : Option Nat) : Prop :=
  ∃ v, Chosen env as key v ∧ Counts v n

/-- The value chosen for a setting is not a count. -/
def Refuses (env : Environment) (as : List Assignment) (key value : String) : Prop :=
  Chosen env as key (some value) ∧ ∀ n, ¬ IsCount value n

/-- Loading a file stops with a fault exactly at a NUL character. Else, after a file has been loaded up
to its end or to its first bad line, each setting has the text that the environment had for it before,
else that of its first assignment in the file, else its default. The settings are read exactly if the
values chosen in this way are counts, and the error tells of the first that is not. -/
theorem ofEnvironment_load (env : Environment) (file : File) :
    (∀ fault, (load env file).2 = .error (.fault fault) ↔
      fault = .nulInValue ∧ StopsAtNul env file.assignments) ∧
    (¬ StopsAtNul env file.assignments →
      (∀ key v, (load env file).1.text key = v ↔ Chosen env file.assignments key v) ∧
      (∀ settings, ofEnvironment (load env file).1 = .ok settings ↔
        Uses env file.assignments workersKey settings.workers ∧
        Uses env file.assignments enumerateLimitKey settings.enumerateLimit) ∧
      ∀ e, ofEnvironment (load env file).1 = .error e ↔
        (∃ value, Refuses env file.assignments workersKey value ∧
          e = .invalidSetting workersKey value) ∨
        (∃ n, Uses env file.assignments workersKey n) ∧
          ∃ value, Refuses env file.assignments enumerateLimitKey value ∧
            e = .invalidSetting enumerateLimitKey value) := by
  obtain ⟨hfst, hsnd⟩ := load_eq env file
  refine ⟨fun fault => (hsnd fault).trans ⟨stopsAtNul_of_fault, ?_⟩, fun hnul => ?_⟩
  · rintro ⟨rfl, hnul⟩
    exact hnul.fault
  · have hmade : (extend env file.assignments).2 = none :=
      Option.eq_none_iff_forall_ne_some.2 fun fault hfault => hnul (stopsAtNul_of_fault hfault).2
    have hchosen : ∀ key v, (load env file).1.text key = v ↔ Chosen env file.assignments key v := by
      intro key v
      rw [hfst]
      exact extend_eq_iff_chosen hmade
    have huses : ∀ key n, readSetting (load env file).1 key = .ok n ↔
        Uses env file.assignments key n := by
      intro key n
      rw [readSetting_eq_ok_iff]
      constructor
      · exact fun h => ⟨_, (hchosen key _).1 rfl, h⟩
      · rintro ⟨v, hv, hn⟩
        rwa [(hchosen key v).2 hv]
    have hrefuses : ∀ key e, readSetting (load env file).1 key = .error e ↔
        ∃ value, Refuses env file.assignments key value ∧ e = .invalidSetting key value := by
      intro key e
      rw [readSetting_eq_error_iff]
      exact exists_congr fun value => by rw [hchosen, Refuses, and_assoc]
    refine ⟨hchosen, fun settings => ?_, fun e => ?_⟩
    · rw [ofEnvironment_eq_ok_iff, huses, huses]
    · simp only [ofEnvironment_eq_error_iff, hrefuses, huses]

/-- The environment hides the first assignment, and a line that is not in UTF-8 the last one. -/
theorem ofEnvironment_load_bad_line :
    ∃ env : Environment, ∃ file, env workersKey = some " 4".toUTF8 ∧
      file = .content ("PIPS_WORKERS=zero\nPIPS_ENUMERATE_LIMIT=+07\n".toUTF8 ++ ⟨#[0xff, 10]⟩ ++
        "PIPS_ENUMERATE_LIMIT=9\n".toUTF8) ∧
      (load env file).2 = .error (.error (.unreadableEnvFile .undecodable)) ∧
      ¬ StopsAtNul env file.assignments ∧
      Uses env file.assignments workersKey (some 4) ∧
      Uses env file.assignments enumerateLimitKey (some 7) := by
  refine ⟨fun name => if name = workersKey then some " 4".toUTF8 else none, _, rfl, rfl, rfl, ?_⟩
  obtain ⟨hfault, hchosen⟩ := ofEnvironment_load
    (fun name => if name = workersKey then some " 4".toUTF8 else none)
    (.content ("PIPS_WORKERS=zero\nPIPS_ENUMERATE_LIMIT=+07\n".toUTF8 ++ ⟨#[0xff, 10]⟩ ++
      "PIPS_ENUMERATE_LIMIT=9\n".toUTF8))
  have hnul : ¬ StopsAtNul _ _ := fun h => absurd ((hfault .nulInValue).2 ⟨rfl, h⟩) (by decide)
  exact ⟨hnul, ((hchosen hnul).2.1 ⟨some 4, some 7⟩).1 (by rfl)⟩

/-- A variable that is set to a byte which is no text does not stop the reading of the settings, and a
file gives it another value. Nor is the first assignment used where a NUL character stands before it. -/
theorem ofEnvironment_load_no_text :
    (∃ env : Environment, env workersKey = some ⟨#[0xff]⟩ ∧
      ofEnvironment (load env .missing).1 = .ok ⟨none, none⟩ ∧
      ofEnvironment (load env (.content "PIPS_WORKERS=4\n".toUTF8)).1 = .ok ⟨some 4, none⟩) ∧
    ∃ env : Environment, ∃ file, file = .content "A=\x00\nPIPS_WORKERS=4\n".toUTF8 ∧
      Uses env file.assignments workersKey (some 4) ∧
      (load env file).2 = .error (.fault .nulInValue) ∧
      ofEnvironment (load env file).1 = .ok ⟨none, none⟩ := by
  refine ⟨⟨fun name => if name = workersKey then some ⟨#[0xff]⟩ else none, rfl, rfl, rfl⟩,
    fun _ => none, _, rfl, ⟨some "4", ?_, ?_⟩, rfl, rfl⟩
  · exact @Chosen.assigned _ _ _ [⟨"A", [.char '\x00']⟩] [] ⟨workersKey, [.char '4']⟩ rfl rfl rfl
      (by decide)
  · exact isCount_iff.2 ⟨rfl, by decide⟩

end Settings
end DominoTiling
