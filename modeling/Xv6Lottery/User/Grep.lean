import Xv6Lottery.User.Match

/-! grep() of grep.c. -/

namespace Xv6Lottery.Grep

def newline : UInt8 := 10

/-- `sizeof(buf)-1`: one byte is left for the NUL. -/
def capacity : Nat := 1024 - 1

/-- `strchr(p, '\n')`: the bytes before the newline and after it. -/
def strchr : List UInt8 → Option (List UInt8 × List UInt8)
  | [] => none
  | a :: p =>
    if a = 0 then none
    else if a = newline then some ([], p)
    else (strchr p).map fun found => (a :: found.1, found.2)

/-- The inner loop: what it writes, and the bytes from `p` on. -/
def printLines (pattern : List UInt8) : Nat → List UInt8 → List UInt8 × List UInt8
  | 0, p => ([], p)
  | rounds + 1, p =>
    match strchr p with
    | none => ([], p)
    | some (line, rest) =>
      let done := printLines pattern rounds rest
      (if matchText pattern line then line ++ newline :: done.1 else done.1, done.2)

/-- The outer loop, with the first `m` bytes of `buf` and what is left of the
input. read() returns one byte more than `chunk` says, if there are so many
and the buffer has room for them. -/
def grepLoop (pattern : List UInt8) (chunk : Nat → Nat) :
    Nat → List UInt8 → List UInt8 → List UInt8
  | 0, _, _ => []
  | rounds + 1, buf, input =>
    let n := min (chunk rounds + 1) (min (capacity - buf.length) input.length)
    if n = 0 then []
    else
      let done := printLines pattern (buf.length + n) (buf ++ input.take n)
      done.1 ++ grepLoop pattern chunk rounds done.2 (input.drop n)

/-- Each call of read() but the last takes a byte or more. -/
def grep (pattern : List UInt8) (chunk : Nat → Nat) (input : List UInt8) : List UInt8 :=
  grepLoop pattern chunk (input.length + 1) [] input

/-- The lines of the input, and what comes after the last newline. -/
def lines : List UInt8 → List (List UInt8) × List UInt8
  | [] => ([], [])
  | a :: input =>
    if a = newline then ([] :: (lines input).1, (lines input).2)
    else match (lines input).1 with
      | [] => ([], a :: (lines input).2)
      | line :: rest => ((a :: line) :: rest, (lines input).2)

/-- The lines that match, with their newlines. -/
def printed (pattern : List UInt8) (list : List (List UInt8)) : List UInt8 :=
  (list.filter (matchText pattern)).flatMap (· ++ [newline])

/-- All lines that match; the last one may lack its newline. -/
def expected (pattern input : List UInt8) : List UInt8 :=
  printed pattern (lines input).1 ++
    if matchText pattern (lines input).2 then (lines input).2 else []

theorem lines_plain (plain : newline ∉ word) : lines word = ([], word) := by
  induction word with
  | nil => rfl
  | cons a word induction =>
    obtain ⟨differs, plain⟩ := not_or.mp (mt List.mem_cons.mpr plain)
    simp [lines, induction plain, Ne.symm differs]

theorem lines_line (plain : newline ∉ line) (rest : List UInt8) :
    lines (line ++ newline :: rest) = (line :: (lines rest).1, (lines rest).2) := by
  induction line with
  | nil => simp [lines]
  | cons a line induction =>
    obtain ⟨differs, plain⟩ := not_or.mp (mt List.mem_cons.mpr plain)
    simp [lines, induction plain, Ne.symm differs]

theorem strchr_cases (free : 0 ∉ p) :
    (newline ∉ p ∧ strchr p = none) ∨ ∃ line rest, newline ∉ line ∧ p = line ++ newline :: rest ∧
      strchr p = some (line, rest) := by
  induction p with
  | nil => exact .inl ⟨nofun, rfl⟩
  | cons a p induction =>
    obtain ⟨nonzero, free⟩ := not_or.mp (mt List.mem_cons.mpr free)
    by_cases ends : a = newline
    · subst ends
      exact .inr ⟨[], p, nofun, rfl, rfl⟩
    · rcases induction free with ⟨plain, missing⟩ | ⟨line, rest, plain, rfl, found⟩
      · refine .inl ⟨mt List.mem_cons.mp (not_or.mpr ⟨Ne.symm ends, plain⟩), ?_⟩
        simp [strchr, Ne.symm nonzero, ends, missing]
      · refine .inr ⟨a :: line, rest, mt List.mem_cons.mp (not_or.mpr ⟨Ne.symm ends, plain⟩), rfl, ?_⟩
        simp [strchr, Ne.symm nonzero, ends, found]

theorem printLines_eq (pattern : List UInt8) (free : 0 ∉ p) (enough : p.length ≤ rounds) :
    printLines pattern rounds p = (printed pattern (lines p).1, (lines p).2) := by
  induction rounds generalizing p with
  | zero =>
    rw [List.eq_nil_of_length_eq_zero (Nat.le_zero.mp enough)]
    rfl
  | succ rounds induction =>
    rcases strchr_cases free with ⟨plain, missing⟩ | ⟨line, rest, plain, rfl, found⟩
    · simp [printLines, missing, lines_plain plain, printed]
    · have freeRest : 0 ∉ rest := fun zero => free (by simp [zero])
      have shorter : rest.length ≤ rounds := by
        simp only [List.length_append, List.length_cons] at enough
        omega
      simp only [printLines, found, induction freeRest shorter, lines_line plain, printed,
        List.filter_cons]
      split <;> simp

/-- The lines of a part of the input, and what it leaves for the rest. -/
theorem lines_append (front rest : List UInt8) :
    lines (front ++ rest) = ((lines front).1 ++ (lines ((lines front).2 ++ rest)).1,
        (lines ((lines front).2 ++ rest)).2) := by
  induction front with
  | nil => rfl
  | cons a front induction =>
    by_cases ends : a = newline
    · simp [lines, ends, induction]
    · cases split : (lines front).1 with
      | nil => 
        rw [split] at induction
        simp [lines, ends, split, induction]
      | cons line more => simp [lines, ends, split, induction]

theorem lines_last (input : List UInt8) :
    newline ∉ (lines input).2 ∧ (lines input).2 <:+ input ∧
      ((lines input).1 = [] → (lines input).2 = input) := by
  induction input with
  | nil => exact ⟨nofun, List.suffix_refl _, fun _ => rfl⟩
  | cons a input induction =>
    obtain ⟨plain, suffix, whole⟩ := induction
    by_cases ends : a = newline
    · simp only [lines, ends, if_true]
      exact ⟨plain, suffix.trans (List.suffix_cons ..), nofun⟩
    · cases split : (lines input).1 with
      | nil =>
        simp only [lines, ends, split, if_false, whole split] at plain ⊢
        exact ⟨mt List.mem_cons.mp (not_or.mpr ⟨Ne.symm ends, plain⟩), List.suffix_refl _,
          fun _ => trivial⟩
      | cons line more =>
        simp only [lines, ends, split, if_false]
        exact ⟨plain, suffix.trans (List.suffix_cons ..), nofun⟩

theorem length_of_mem_lines (member : line ∈ (lines input).1) : line.length < input.length := by
  induction input generalizing line with
  | nil => cases member
  | cons a input induction =>
    rw [List.length_cons]
    unfold lines at member
    split at member
    · rcases List.mem_cons.mp member with rfl | member
      · exact Nat.succ_pos _
      · exact (induction member).trans (Nat.lt_succ_self _)
    · cases split : (lines input).1 with
      | nil => simp [split] at member
      | cons first more =>
        simp only [split] at member induction
        rcases List.mem_cons.mp member with rfl | member
        · exact Nat.succ_lt_succ (induction (.head _))
        · exact (induction (.tail _ member)).trans (Nat.lt_succ_self _)

theorem printed_append (pattern : List UInt8) (front rest : List (List UInt8)) :
    printed pattern (front ++ rest) = printed pattern front ++ printed pattern rest := by
  rw [printed, List.filter_append, List.flatMap_append]
  rfl

theorem length_le_first (plain : newline ∉ buf) (first : (lines (buf ++ input)).1 = line :: more) :
    buf.length ≤ line.length := by
  induction buf generalizing line with
  | nil => exact Nat.zero_le _
  | cons a buf induction =>
    obtain ⟨differs, plain⟩ := not_or.mp (mt List.mem_cons.mpr plain)
    cases split : (lines (buf ++ input)).1 with
    | nil => simp [lines, split, Ne.symm differs] at first
    | cons rest others =>
      simp only [List.cons_append, lines, split, Ne.symm differs, if_false] at first
      cases first
      exact Nat.succ_le_succ (induction plain split)

/-- A line that does not fit in the buffer ends the loop. -/
theorem takeWhile_full (plain : newline ∉ buf) (full : capacity ≤ buf.length) (input : List UInt8) :
    (lines (buf ++ input)).1.takeWhile (·.length < capacity) = [] := by
  cases split : (lines (buf ++ input)).1 with
  | nil => rfl
  | cons line more =>
    have long := full.trans (length_le_first plain split)
    rw [List.takeWhile_cons, if_neg (by simpa using long)]

theorem grepLoop_eq (pattern : List UInt8) (chunk : Nat → Nat) (free : 0 ∉ buf ++ input)
    (plain : newline ∉ buf) (fits : buf.length ≤ capacity) (enough : input.length < rounds) :
    grepLoop pattern chunk rounds buf input = printed pattern
      ((lines (buf ++ input)).1.takeWhile (·.length < capacity)) := by
  induction rounds generalizing buf input with
  | zero => cases enough
  | succ rounds induction =>
    unfold grepLoop
    generalize size : min (chunk rounds + 1) (min (capacity - buf.length) input.length) = n
    dsimp only
    split
    next stop =>
      rcases (show input.length = 0 ∨ capacity ≤ buf.length by omega) with empty | full
      · rw [List.eq_nil_of_length_eq_zero empty, List.append_nil, lines_plain plain]
        rfl
      · rw [takeWhile_full plain full]
        rfl
    next more =>
      have whole : buf ++ input.take n ++ input.drop n = buf ++ input := by
        rw [List.append_assoc, List.take_append_drop]
      have length : (buf ++ input.take n).length = buf.length + n := by
        rw [List.length_append, List.length_take]
        omega
      generalize taken : buf ++ input.take n = front at whole length
      have freeFront : 0 ∉ front := fun zero => free (by rw [← whole]; simp [zero])
      obtain ⟨plain, suffix, -⟩ := lines_last front
      have short : ∀ line ∈ (lines front).1, line.length < capacity := fun line member => by
        have := length_of_mem_lines member
        omega
      rw [printLines_eq pattern freeFront length.le, ← whole, lines_append]
      rw [List.takeWhile_append_of_pos (by simpa using short), printed_append]
      congr 1
      refine induction ?_ plain ?_ ?_
      · intro zero
        refine free ?_
        rw [← whole]
        rcases List.mem_append.mp zero with zero | zero
        · exact List.mem_append_left _ (suffix.mem zero)
        · exact List.mem_append_right _ zero
      · change (lines front).2.length ≤ capacity
        have := suffix.length_le
        omega
      · rw [List.length_drop]
        omega

theorem printed_eq_nil :
    printed pattern list = [] ↔ ∀ line ∈ list, matchText pattern line = false := by
  simp [printed]

theorem grep_eq (pattern : List UInt8) (chunk : Nat → Nat) (free : 0 ∉ input) :
    grep pattern chunk input = printed pattern ((lines input).1.takeWhile (·.length < capacity)) :=
  grepLoop_eq pattern chunk free nofun (Nat.zero_le _) (Nat.lt_succ_self _)

/-- grep prints the lines that match, unless one lacks its newline or comes with
or after a line that does not fit in the buffer. -/
theorem grep_prints_iff (pattern : List UInt8) (chunk : Nat → Nat) (input : List UInt8)
    (free : 0 ∉ input) :
    grep pattern chunk input = expected pattern input ↔
      (∀ line ∈ (lines input).1.dropWhile (·.length < capacity), matchText pattern line = false) ∧
      ((lines input).2 = [] ∨ matchText pattern (lines input).2 = false) := by
  have split : printed pattern (lines input).1 =
      printed pattern ((lines input).1.takeWhile (·.length < capacity)) ++
        printed pattern ((lines input).1.dropWhile (·.length < capacity)) := by
    rw [← printed_append, List.takeWhile_append_dropWhile]
  rw [grep_eq pattern chunk free, expected, split, List.append_assoc, List.self_eq_append_right,
    List.append_eq_nil_iff, printed_eq_nil]
  refine and_congr_right fun _ => ?_
  cases matchText pattern (lines input).2 <;> simp

theorem grep_prints_oneLine :
    grep [97] (fun _ => 0) [97, 10] = expected [97] [97, 10] ∧ expected [97] [97, 10] = [97, 10] :=
  ⟨(grep_prints_iff [97] (fun _ => 0) [97, 10] (by decide)).mpr (by decide), by decide⟩

/-- A line of 1023 bytes fills the buffer, read() is called for no bytes, and
grep takes its 0 for the end of the file. -/
theorem grep_drops_longLine :
    grep [] (fun _ => 0) (List.replicate 1023 97 ++ [newline]) = [] ∧
      expected [] (List.replicate 1023 97 ++ [newline]) = List.replicate 1023 97 ++ [newline] := by
  have plain : newline ∉ List.replicate 1023 (97 : UInt8) := fun member =>
    absurd (List.eq_of_mem_replicate member) (by decide)
  have free : 0 ∉ List.replicate 1023 (97 : UInt8) ++ [newline] := fun zero => by
    rcases List.mem_append.mp zero with zero | zero
    · exact absurd (List.eq_of_mem_replicate zero) (by decide)
    · exact absurd (List.mem_singleton.mp zero) (by decide)
  have length : (List.replicate 1023 (97 : UInt8)).length = capacity := List.length_replicate
  generalize List.replicate 1023 (97 : UInt8) = line at plain free length ⊢
  have whole : lines (line ++ [newline]) = ([line], []) := lines_line plain []
  have all : matchText [] line = true := by cases line <;> rfl
  constructor
  · rw [grep_eq [] _ free, takeWhile_full plain length.ge]
    rfl
  · rw [expected, whole]
    simp [printed, all]

end Xv6Lottery.Grep
