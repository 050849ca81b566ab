import Mathlib.Data.Nat.Digits.Lemmas
import Mathlib.Data.UInt
import Mathlib.Algebra.Order.Group.Unbundled.Int

/-! printint() and vprintf() of the user's printf.c. -/

namespace Xv6Lottery.Printf

/-- `digits[d]` -/
def digit (d : Nat) : UInt8 := .ofNat (if d < 10 then 48 + d else 55 + d)

/-- The loop of printint() on `uint x`: what it stores in `buf`. -/
def stored (base : UInt32) : Nat → UInt32 → List UInt8
  | 0, _ => []
  | rounds + 1, x =>
    digit (x % base).toNat :: if x / base = 0 then [] else stored base rounds (x / base)

/-- What printint() passes to putc(). -/
def printint (xx : Int64) (base : UInt32) (sgn : Bool) : List UInt8 :=
  let neg := sgn && decide (xx < 0)
  let x := (if neg then -xx else xx).toUInt64.toUInt32
  (stored base 32 x ++ if neg then [45] else []).reverse

def printptr (x : UInt64) : List UInt8 :=
  48 :: 120 :: (List.range 16).map fun i => digit ((x <<< (4 * .ofNat i)) >>> 60).toNat

/-- `va_arg(ap, int)`, passed as a `long long`. -/
def argInt (slot : UInt64) : Int64 := slot.toUInt32.toInt32.toInt64

/-- A directive from its characters and the next argument: what is written, and
by how much `i` is increased. `text` is the string at an address. -/
def convert (text : UInt64 → List UInt8) (c0 c1 c2 : UInt8) (slot : UInt64) :
    List UInt8 × Nat × Bool :=
  if c0 = 100 then (printint (argInt slot) 10 true, 0, true)
  else if c0 = 108 ∧ c1 = 100 then (printint slot.toInt64 10 true, 1, true)
  else if c0 = 108 ∧ c1 = 108 ∧ c2 = 100 then (printint slot.toInt64 10 true, 2, true)
  else if c0 = 117 then (printint (argInt slot) 10 false, 0, true)
  else if c0 = 108 ∧ c1 = 117 then (printint slot.toInt64 10 false, 1, true)
  else if c0 = 108 ∧ c1 = 108 ∧ c2 = 117 then (printint slot.toInt64 10 false, 2, true)
  else if c0 = 120 then (printint (argInt slot) 16 false, 0, true)
  else if c0 = 108 ∧ c1 = 120 then (printint slot.toInt64 16 false, 1, true)
  else if c0 = 108 ∧ c1 = 108 ∧ c2 = 120 then (printint slot.toInt64 16 false, 2, true)
  else if c0 = 112 then (printptr slot, 0, true)
  else if c0 = 115 then (if slot = 0 then "(null)".toUTF8.toList else text slot, 0, true)
  else if c0 = 37 then ([37], 0, false)
  else ([37, c0], 0, false)

/-- The loop of vprintf(): `state` is true after a `%`, and `skip` characters
have been handled already. -/
def vprintf (text : UInt64 → List UInt8) :
    Bool → Nat → List UInt8 → List UInt64 → List UInt8
  | _, _, [], _ => []
  | state, skip + 1, _ :: fmt, args => vprintf text state skip fmt args
  | false, 0, c0 :: fmt, args =>
    if c0 = 37 then vprintf text true 0 fmt args else c0 :: vprintf text false 0 fmt args
  | true, 0, c0 :: fmt, args =>
    let c1 := fmt.headD 0
    let c2 := if c1 = 0 then 0 else fmt.tail.headD 0
    let (out, skip, used) := convert text c0 c1 c2 (args.headD 0)
    out ++ vprintf text false skip fmt (if used then args.tail else args)

/-! The directives for integers. -/

inductive Width where
  | int
  | long
  | longLong

inductive Form where
  | d
  | u
  | x

def Width.chars : Width → List UInt8
  | .int => []
  | .long => [108]
  | .longLong => [108, 108]

def Form.char : Form → UInt8
  | .d => 100
  | .u => 117
  | .x => 120

def Form.base : Form → Nat
  | .d | .u => 10
  | .x => 16

def Form.signed : Form → Bool
  | .d => true
  | .u | .x => false

/-- The integer that is passed in an argument. -/
def passed : Width → Form → UInt64 → Int
  | .int, .d, slot => slot.toUInt32.toInt32.toInt
  | .int, _, slot => slot.toUInt32.toNat
  | _, .d, slot => slot.toInt64.toInt
  | _, _, slot => slot.toNat

def digitValue (c : UInt8) : Nat := if c < 58 then c.toNat - 48 else c.toNat - 55

def Form.minus (form : Form) (out : List UInt8) : Bool := form.signed && out.head? == some 45

/-- A numeral without its sign. -/
def Form.magnitude (form : Form) (out : List UInt8) : List UInt8 :=
  if form.minus out then out.tail else out

/-- The integer that a numeral stands for. -/
def Form.value (form : Form) (out : List UInt8) : Int :=
  let size := Nat.ofDigits form.base ((form.magnitude out).reverse.map digitValue)
  if form.minus out then -size else size

/-- The digits of a number, one of them for 0. -/
def numerals (b n : Nat) : List Nat := if n = 0 then [0] else Nat.digits b n

theorem numerals_step (large : 1 < b) (n : Nat) :
    numerals b n = n % b :: if n / b = 0 then [] else numerals b (n / b) := by
  unfold numerals
  by_cases zero : n = 0
  · simp [zero]
  · rw [if_neg zero, Nat.digits_def' large (Nat.pos_of_ne_zero zero)]
    split
    next last => rw [last, Nat.digits_zero]
    next => rfl

theorem numerals_lt (large : 1 < b) (member : d ∈ numerals b n) : d < b := by
  unfold numerals at member
  split at member
  · rw [List.mem_singleton.mp member]
    omega
  · exact Nat.digits_lt_base large member

theorem ofDigits_numerals (b n : Nat) : Nat.ofDigits b (numerals b n) = n := by
  unfold numerals
  split
  next zero => simp [zero]
  next => exact Nat.ofDigits_digits b n

theorem stored_eq (large : 1 < base.toNat) (rounds : Nat) (x : UInt32)
    (enough : x.toNat < base.toNat ^ (rounds + 1)) :
    stored base (rounds + 1) x = (numerals base.toNat x.toNat).map digit := by
  induction rounds generalizing x with
  | zero =>
    have last : x.toNat / base.toNat = 0 := Nat.div_eq_of_lt (by simpa using enough)
    have ends : x / base = 0 := by rw [← UInt32.toNat_inj, UInt32.toNat_div, last]; rfl
    rw [numerals_step large, if_pos last, stored, if_pos ends, UInt32.toNat_mod]
    rfl
  | succ rounds induction =>
    have zero : x / base = 0 ↔ x.toNat / base.toNat = 0 := by
      rw [← UInt32.toNat_inj, UInt32.toNat_div]
      rfl
    have less : (x / base).toNat < base.toNat ^ (rounds + 1) := by
      rw [UInt32.toNat_div, Nat.div_lt_iff_lt_mul (by omega), ← Nat.pow_succ]
      exact enough
    rw [numerals_step large, stored, UInt32.toNat_mod, List.map_cons]
    congr 1
    by_cases last : x / base = 0
    · rw [if_pos last, if_pos (zero.mp last)]
      rfl
    · rw [if_neg last, if_neg (mt zero.mpr last), induction _ less, UInt32.toNat_div]

theorem digitValue_digit (small : d < 16) : digitValue (digit d) = d := by
  revert d
  decide

theorem digit_ne_minus (small : d < 16) : digit d ≠ 45 := by
  revert d
  decide

theorem digit_eq_zero (small : d < 16) (zero : digit d = 48) : d = 0 := by
  revert d
  decide

/-- What printint() writes, for any sign: all digits of `x`, the first of them
not 0 unless it is the only one. -/
theorem printint_spec (form : Form) (xx : Int64) (n : Nat) (neg : Bool)
    (sign : neg = (form.signed && decide (xx < 0)))
    (size : (if neg then -xx else xx).toUInt64.toUInt32.toNat = n) :
    let out := printint xx (.ofNat form.base) form.signed
    form.value out = (if neg then -n else n : Int) ∧
      (form.magnitude out = [48] ∨ (form.magnitude out).head? ≠ some 48) ∧ out.length ≤ 20 := by
  have base : (UInt32.ofNat form.base).toNat = form.base := by cases form <;> rfl
  have large : 1 < form.base := by cases form <;> decide
  have small : form.base ≤ 16 := by cases form <;> decide
  have bound : n < form.base ^ 10 := by
    rw [← size]
    exact (UInt32.toNat_lt _).trans_le (by cases form <;> decide)
  have digits := stored_eq (base.symm ▸ large) 31 (if neg then -xx else xx).toUInt64.toUInt32 (by
    rw [size, base]
    exact bound.trans_le (Nat.pow_le_pow_right (by omega) (by decide)))
  rw [size, base] at digits
  have below : ∀ d ∈ numerals form.base n, d < 16 := fun d member =>
    (numerals_lt large member).trans_le small
  intro out
  have written : out = (if neg then [45] else []) ++ ((numerals form.base n).map digit).reverse := by
    unfold out printint
    rw [← sign]
    dsimp only
    rw [digits, List.reverse_append]
    cases neg <;> rfl
  have minus : form.minus out = neg := by
    rw [written]
    cases neg with
    | true => rw [Form.minus, (Bool.and_eq_true_iff.mp sign.symm).1]; rfl
    | false =>
      refine Bool.and_eq_false_imp.mpr fun _ => beq_eq_false_iff_ne.mpr fun first => ?_
      obtain ⟨d, member, same⟩ := List.mem_map.mp (List.mem_reverse.mp (List.mem_of_head? first))
      exact digit_ne_minus (below d member) same
  have magnitude : form.magnitude out = ((numerals form.base n).map digit).reverse := by
    rw [Form.magnitude, minus, written]
    cases neg <;> rfl
  refine ⟨?_, ?_, ?_⟩
  · have values : ((numerals form.base n).map digit).map digitValue = numerals form.base n := by
      rw [List.map_map]
      exact (List.map_congr_left fun d member => digitValue_digit (below d member)).trans
        (List.map_id _)
    rw [Form.value, magnitude, minus, List.reverse_reverse, values, ofDigits_numerals]
  · rw [magnitude]
    by_cases zero : n = 0
    · exact .inl (by rw [zero]; rfl)
    · refine .inr fun first => ?_
      rw [List.head?_reverse, List.getLast?_map] at first
      obtain ⟨d, last, same⟩ := Option.map_eq_some_iff.mp first
      have isZero := digit_eq_zero (below d (List.mem_of_getLast? last)) same
      rw [numerals, if_neg zero, List.getLast?_eq_some_getLast
        (Nat.digits_ne_nil_iff_ne_zero.mpr zero)] at last
      exact Nat.getLast_digit_ne_zero form.base zero ((Option.some.inj last).trans isZero)
  · rw [written, List.length_append, List.length_reverse, List.length_map]
    have count : (numerals form.base n).length ≤ 10 := by
      unfold numerals
      split
      · decide
      · exact (Nat.digits_length_le_iff large n).mpr bound
    cases neg <;> simp <;> omega

theorem low_eq (xx : Int64) : (xx.toUInt64.toUInt32.toNat : Int) = xx.toInt % 2 ^ 32 := by
  have whole : xx.toInt = Int.bmod xx.toUInt64.toNat (2 ^ 64) := BitVec.toInt_eq_toNat_bmod _
  rw [UInt64.toNat_toUInt32, whole, Int.bmod_def]
  split <;> omega

theorem low_neg (xx : Int64) : ((-xx).toUInt64.toUInt32.toNat : Int) = -xx.toInt % 2 ^ 32 := by
  rw [low_eq, Int64.toInt_neg, Int.bmod_def]
  split <;> omega

def Width.arg : Width → UInt64 → Int64
  | .int, slot => argInt slot
  | .long, slot | .longLong, slot => slot.toInt64

theorem vprintf_integer (text : UInt64 → List UInt8) (width : Width) (form : Form) (slot : UInt64)
    (fmt : List UInt8) (args : List UInt64) :
    vprintf text false 0 (37 :: (width.chars ++ form.char :: fmt)) (slot :: args) =
      printint (width.arg slot) (.ofNat form.base) form.signed ++ vprintf text false 0 fmt args
      := by
  cases width <;> cases form <;> simp [vprintf, convert, Width.chars, Form.char, Width.arg] <;> rfl

theorem arg_signed (width : Width) (slot : UInt64) :
    (width.arg slot).toInt = passed width .d slot := by
  cases width with
  | int => exact Int32.toInt_toInt64 _
  | long | longLong => rfl

theorem arg_unsigned (width : Width) (plain : form.signed = false) (slot : UInt64) :
    0 ≤ passed width form slot ∧ (width.arg slot).toInt % 2 ^ 32 =
      passed width form slot % 2 ^ 32 := by
  have wide : slot.toInt64.toInt = Int.bmod slot.toNat (2 ^ 64) := BitVec.toInt_eq_toNat_bmod _
  have narrow : slot.toUInt32.toInt32.toInt = Int.bmod slot.toUInt32.toNat (2 ^ 32) :=
    BitVec.toInt_eq_toNat_bmod _
  rw [Int.bmod_def] at wide narrow
  have same : (argInt slot).toInt = slot.toUInt32.toInt32.toInt := Int32.toInt_toInt64 _
  cases width <;> cases form <;> cases plain
  all_goals
    simp only [passed, Width.arg]
    omega

/-- The characters for an integer stand for the integer that was passed if it
is smaller than 2^32, and only then. -/
theorem vprintf_exact_iff (text : UInt64 → List UInt8) (width : Width) (form : Form)
    (slot : UInt64) (fmt : List UInt8) (args : List UInt64) :
    ∃ out, vprintf text false 0 (37 :: (width.chars ++ form.char :: fmt)) (slot :: args) =
      out ++ vprintf text false 0 fmt args ∧ (form.value out = passed width form slot ↔
        |passed width form slot| < 2 ^ 32) ∧ (form.magnitude out = [48] ∨
        (form.magnitude out).head? ≠ some 48) ∧ out.length ≤ 20 := by
  refine ⟨_, vprintf_integer text width form slot fmt args, ?_⟩
  generalize sign : (form.signed && decide (width.arg slot < 0)) = neg
  obtain ⟨value, leading, room⟩ := printint_spec form (width.arg slot) _ neg sign.symm rfl
  refine ⟨?_, leading, room⟩
  rw [value, abs_lt]
  cases neg with
  | true =>
    obtain ⟨signed, below⟩ := Bool.and_eq_true_iff.mp sign
    cases form <;> cases signed
    have negative := Int64.lt_iff_toInt_lt.mp (of_decide_eq_true below)
    simp only [if_true, low_neg, arg_signed] at negative ⊢
    change _ < (0 : Int) at negative
    omega
  | false =>
    simp only [Bool.false_eq_true, if_false, low_eq]
    cases signed : form.signed with
    | true =>
      rw [signed, Bool.true_and, decide_eq_false_iff_not, Int64.lt_iff_toInt_lt] at sign
      cases form <;> cases signed
      rw [arg_signed] at sign ⊢
      change ¬_ < (0 : Int) at sign
      omega
    | false =>
      have := arg_unsigned width signed slot
      omega

/-- `printf("%ld", 5000000000)` prints the number modulo 2^32. -/
theorem vprintf_truncates :
    vprintf (fun _ => []) false 0 [37, 108, 100] [5000000000] = "705032704".toUTF8.toList ∧
      Form.d.value "705032704".toUTF8.toList ≠ passed .long .d 5000000000 := by
  decide +kernel

end Xv6Lottery.Printf
