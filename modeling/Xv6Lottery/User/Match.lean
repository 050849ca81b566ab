import Mathlib.Computability.Language
import Mathlib.Data.List.Induction
import Mathlib.Data.UInt

/-! The matcher of grep.c. Strings are the bytes before the NUL. -/

namespace Xv6Lottery.Grep

open Computability

def dot : UInt8 := 46
def star : UInt8 := 42
def caret : UInt8 := 94
def dollar : UInt8 := 36

/-- matchstar(); `here` is matchhere() of the pattern after the `*`. -/
def matchstar (here : List UInt8 → Bool) (c : UInt8) : List UInt8 → Bool
  | [] => here []
  | a :: text => here (a :: text) || ((a == c || c == dot) && matchstar here c text)

/-- The last test of matchhere(), for the first character of the pattern. -/
def matchfirst (here : List UInt8 → Bool) (c : UInt8) : List UInt8 → Bool
  | [] => false
  | a :: text => (c == dot || c == a) && here text

def matchhere : List UInt8 → List UInt8 → Bool
  | [], _ => true
  | [c], text => if c = dollar then text.isEmpty else matchfirst (fun _ => true) c text
  | c :: d :: re, text =>
    if d = star then matchstar (matchhere re) c text
    else matchfirst (matchhere (d :: re)) c text

/-- The loop of match(). -/
def matchfrom (re : List UInt8) : List UInt8 → Bool
  | [] => matchhere re []
  | a :: text => matchhere re (a :: text) || matchfrom re text

/-- match() -/
def matchText (re text : List UInt8) : Bool :=
  if re.head? = some caret then matchhere re.tail text else matchfrom re text

/-! The pattern language. -/

inductive Item where
  | one (c : UInt8)
  | many (c : UInt8)

def Fits (c a : UInt8) : Prop := c = dot ∨ a = c

def letter (c : UInt8) : Language UInt8 := {word | ∃ a, Fits c a ∧ word = [a]}

def Item.lang : Item → Language UInt8
  | .one c => letter c
  | .many c => (letter c)∗

/-- The items of a pattern, and whether it ends with `$`. -/
def items : List UInt8 → List Item × Bool
  | [] => ([], false)
  | [c] => if c = dollar then ([], true) else ([.one c], false)
  | c :: d :: re =>
    if d = star then (.many c :: (items re).1, (items re).2)
    else (.one c :: (items (d :: re)).1, (items (d :: re)).2)

def lang (list : List Item) : Language UInt8 := (list.map Item.lang).prod

/-- A prefix of the text is in the language of the pattern; with a final `$`
it is the whole text. -/
def Accepts (re text : List UInt8) : Prop :=
  ∃ word rest, text = word ++ rest ∧ word ∈ lang (items re).1 ∧ ((items re).2 = true → rest = [])

theorem mem_letter_kstar : word ∈ (letter c)∗ ↔ ∀ a ∈ word, Fits c a := by
  constructor
  · rintro ⟨words, rfl, each⟩ a member
    obtain ⟨single, inWords, inSingle⟩ := List.mem_flatten.mp member
    obtain ⟨b, fits, rfl⟩ := each single inWords
    rw [List.mem_singleton.mp inSingle]
    exact fits
  · intro fits
    refine ⟨word.map fun a => [a], ?_, ?_⟩
    · rw [← List.flatMap_def, List.flatMap_singleton']
    · intro single member
      obtain ⟨a, inWord, rfl⟩ := List.mem_map.mp member
      exact ⟨a, fits a inWord, rfl⟩

theorem mem_lang_one :
    word ∈ lang (.one c :: list) ↔ ∃ a rest, word = a :: rest ∧ Fits c a ∧ rest ∈ lang list := by
  rw [lang, List.map_cons, List.prod_cons, Language.mem_mul]
  constructor
  · rintro ⟨_, ⟨a, fits, rfl⟩, rest, member, rfl⟩
    exact ⟨a, rest, rfl, fits, member⟩
  · rintro ⟨a, rest, rfl, fits, member⟩
    exact ⟨[a], ⟨a, fits, rfl⟩, rest, member, rfl⟩

theorem mem_lang_many :
    word ∈ lang (.many c :: list) ↔ ∃ front rest, word = front ++ rest ∧ (∀ a ∈ front, Fits c a) ∧
      rest ∈ lang list := by
  rw [lang, List.map_cons, List.prod_cons, Language.mem_mul]
  constructor
  · rintro ⟨front, fits, rest, member, rfl⟩
    exact ⟨front, rest, rfl, mem_letter_kstar.mp fits, member⟩
  · rintro ⟨front, rest, rfl, fits, member⟩
    exact ⟨front, mem_letter_kstar.mpr fits, rest, member, rfl⟩

theorem matchstar_iff :
    matchstar here c text = true ↔ ∃ front rest, text = front ++ rest ∧ (∀ a ∈ front, Fits c a) ∧
      here rest = true := by
  induction text with
  | nil =>
    constructor
    · exact fun matched => ⟨[], [], rfl, nofun, matched⟩
    · rintro ⟨front, rest, empty, -, matched⟩
      rw [(List.append_eq_nil_iff.mp empty.symm).2] at matched
      exact matched
  | cons a text induction =>
    simp only [matchstar, Bool.or_eq_true, Bool.and_eq_true, beq_iff_eq, induction]
    constructor
    · rintro (matched | ⟨fits, front, rest, rfl, each, matched⟩)
      · exact ⟨[], a :: text, rfl, nofun, matched⟩
      · exact ⟨a :: front, rest, rfl, List.forall_mem_cons.mpr ⟨fits.symm, each⟩, matched⟩
    · rintro ⟨front, rest, split, each, matched⟩
      cases front with
      | nil =>
        rw [split]
        exact .inl matched
      | cons b front =>
        obtain ⟨rfl, rfl⟩ := List.cons.inj split
        obtain ⟨fits, each⟩ := List.forall_mem_cons.mp each
        exact .inr ⟨fits.symm, front, rest, rfl, each, matched⟩

theorem matchfirst_iff :
    matchfirst here c text = true ↔ ∃ a rest, text = a :: rest ∧ Fits c a ∧ here rest = true := by
  cases text with
  | nil => simp [matchfirst]
  | cons a text =>
    simp only [matchfirst, Bool.and_eq_true, Bool.or_eq_true, beq_iff_eq]
    constructor
    · exact fun ⟨fits, matched⟩ => ⟨a, text, rfl, fits.imp_right Eq.symm, matched⟩
    · rintro ⟨_, _, ⟨⟩, fits, matched⟩
      exact ⟨fits.imp_right Eq.symm, matched⟩

theorem matchhere_iff (re text : List UInt8) : matchhere re text = true ↔ Accepts re text := by
  induction re using List.twoStepInduction generalizing text with
  | nil => exact iff_of_true rfl ⟨[], text, rfl, rfl, nofun⟩
  | singleton c =>
    unfold matchhere Accepts items
    split
    · rw [List.isEmpty_iff]
      constructor
      · exact fun empty => ⟨[], [], empty, rfl, fun _ => rfl⟩
      · rintro ⟨word, rest, rfl, rfl, ends⟩
        exact ends rfl
    · rw [matchfirst_iff]
      constructor
      · rintro ⟨a, rest, rfl, fits, -⟩
        exact ⟨[a], rest, rfl, mem_lang_one.mpr ⟨a, [], rfl, fits, rfl⟩, nofun⟩
      · rintro ⟨word, rest, rfl, member, -⟩
        obtain ⟨a, _, rfl, fits, rfl⟩ := mem_lang_one.mp member
        exact ⟨a, rest, rfl, fits, rfl⟩
  | cons_cons c d re short long =>
    unfold matchhere Accepts items
    split
    · rw [matchstar_iff]
      constructor
      · rintro ⟨front, _, rfl, each, matched⟩
        obtain ⟨word, rest, rfl, member, ends⟩ := (short _).mp matched
        exact ⟨front ++ word, rest, (List.append_assoc ..).symm,
          mem_lang_many.mpr ⟨front, word, rfl, each, member⟩, ends⟩
      · rintro ⟨_, rest, rfl, member, ends⟩
        obtain ⟨front, word, rfl, each, member⟩ := mem_lang_many.mp member
        exact ⟨front, word ++ rest, List.append_assoc .., each,
          (short _).mpr ⟨word, rest, rfl, member, ends⟩⟩
    · rw [matchfirst_iff]
      constructor
      · rintro ⟨a, _, rfl, fits, matched⟩
        obtain ⟨word, rest, rfl, member, ends⟩ := (long d _).mp matched
        exact ⟨a :: word, rest, rfl, mem_lang_one.mpr ⟨a, word, rfl, fits, member⟩, ends⟩
      · rintro ⟨_, rest, rfl, member, ends⟩
        obtain ⟨a, word, rfl, fits, member⟩ := mem_lang_one.mp member
        exact ⟨a, word ++ rest, rfl, fits, (long d _).mpr ⟨word, rest, rfl, member, ends⟩⟩

theorem matchfrom_iff (re text : List UInt8) :
    matchfrom re text = true ↔ ∃ suffix, suffix <:+ text ∧ Accepts re suffix := by
  induction text with
  | nil => simp [matchfrom, matchhere_iff]
  | cons a text induction =>
    simp [matchfrom, matchhere_iff, induction, List.suffix_cons_iff, or_and_right, exists_or]

/-- match() looks for the language of the pattern at the start of the text
after a `^`, and otherwise at the start of every suffix. -/
theorem matches_iff (re text : List UInt8) :
    matchText re text = true ↔ if re.head? = some caret then Accepts re.tail text else ∃ suffix,
      suffix <:+ text ∧ Accepts re suffix := by
  unfold matchText
  split
  · exact matchhere_iff re.tail text
  · exact matchfrom_iff re text

example : matchText "^a*b$".toUTF8.toList "aab".toUTF8.toList = true := by decide +kernel

end Xv6Lottery.Grep
