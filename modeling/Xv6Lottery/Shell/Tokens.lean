import Xv6Lottery.Shell.Parse

/-! nulterminate() ends every token of the line, and cuts none. -/

namespace Xv6Lottery.Shell

open Function (update update_self update_of_ne)

variable {text : List UInt8} {cmd : Cmd}

/-- A word of the line: it goes on as far as it can. -/
structure Word (text : List UInt8) (token : Nat × Nat) : Prop where
  ordered : token.1 ≤ token.2
  inside : ∀ i, token.1 ≤ i → i < token.2 → ∃ c, text[i]? = some c ∧ wordChar c = true
  ends : ∀ c, text[token.2]? = some c → wordChar c = false

def Words (text : List UInt8) (cmd : Cmd) : Prop := ∀ token ∈ cmd.tokens, Word text token

theorem word_of_append {q : Nat} {taken rest : List UInt8} (split : text.drop q = taken ++ rest)
    (all : ∀ c ∈ taken, wordChar c = true) (stop : ∀ c ∈ rest.head?, wordChar c = false) :
    Word text (q, q + taken.length) := by
  constructor
  · exact Nat.le_add_right ..
  · intro i above below
    obtain ⟨k, rfl⟩ := Nat.exists_eq_add_of_le above
    have small := Nat.lt_of_add_lt_add_left below
    refine ⟨taken[k], ?_, all _ (List.getElem_mem small)⟩
    rw [← List.getElem?_drop, split, List.getElem?_append_left small]
    exact List.getElem?_eq_getElem small
  · intro c found
    rw [← List.getElem?_drop, split, List.getElem?_append_right le_rfl, Nat.sub_self,
      ← List.head?_eq_getElem?] at found
    exact stop c found

theorem word_at (text : List UInt8) (q : Nat) :
    Word text (q, q + ((text.drop q).takeWhile wordChar).length) := by
  refine word_of_append List.takeWhile_append_dropWhile.symm
    (List.all_eq_true.mp List.all_takeWhile) ?_
  intro c next
  have fails := List.head?_dropWhile_not wordChar (text.drop q)
  rw [Option.mem_def.mp next] at fails
  exact fails

theorem gettoken_word {ps : Nat} (isWord : (gettoken text ps).ret = 97) :
    Word text ((gettoken text ps).q, (gettoken text ps).eq) := by
  unfold gettoken at isWord ⊢
  dsimp only at isWord ⊢
  split at isWord <;> [skip; split at isWord <;> [skip; split at isWord <;> [split at isWord; skip]]]
  · cases isWord
  next symbol => simp [show char text (skip text ps) = 97 from isWord] at symbol
  · cases isWord
  · cases isWord
  next => simp only [*, if_false]; exact word_at ..

theorem bind_ok {α β : Type} {first : Except Stop α} {rest : α → Except Stop β} {result : β}
    (done : first >>= rest = .ok result) : ∃ value, first = .ok value ∧ rest value = .ok result := by
  cases first with
  | error stop => cases done
  | ok value => exact ⟨value, rfl, done⟩

theorem tokens_wrap (redirs : List Redir) (cmd : Cmd) {token : Nat × Nat}
    (member : token ∈ (wrap cmd redirs).tokens) :
    token ∈ cmd.tokens ∨ ∃ redir ∈ redirs, token = (redir.file, redir.efile) := by
  induction redirs generalizing cmd with
  | nil => exact .inl member
  | cons redir redirs induction =>
    rcases induction _ member with member | ⟨other, inside, same⟩
    · rcases List.mem_cons.mp member with same | member
      · exact .inr ⟨redir, .head _, same⟩
      · exact .inl member
    · exact .inr ⟨other, .tail _ inside, same⟩

theorem words_wrap {redirs : List Redir} (words : Words text cmd)
    (files : ∀ redir ∈ redirs, Word text (redir.file, redir.efile)) :
    Words text (wrap cmd redirs) := by
  intro token member
  rcases tokens_wrap redirs cmd member with member | ⟨redir, inside, rfl⟩
  · exact words token member
  · exact files redir inside

theorem parseredirs_words {rounds ps : Nat} {redirs : List Redir} {next : Nat}
    (done : parseredirs text rounds ps = .ok (redirs, next)) :
    ∀ redir ∈ redirs, Word text (redir.file, redir.efile) := by
  induction rounds generalizing ps redirs next with
  | zero => cases done
  | succ rounds induction =>
    unfold parseredirs at done
    split at done
    · dsimp only at done
      split at done
      next => cases done
      next isWord =>
        obtain ⟨rest, parsed, done⟩ := bind_ok done
        cases done
        intro redir member
        rcases List.mem_cons.mp member with rfl | member
        · have word := gettoken_word (not_not.mp isWord)
          unfold redirection
          split <;> [exact word; split <;> exact word]
        · exact induction parsed redir member
    · cases done
      nofun

theorem parseargs_words {rounds ps : Nat} {argv : List (Nat × Nat)} {redirs : List Redir}
    {result : Cmd × Nat} (args : ∀ token ∈ argv, Word text token)
    (files : ∀ redir ∈ redirs, Word text (redir.file, redir.efile))
    (done : parseargs text rounds argv redirs ps = .ok result) : Words text result.1 := by
  induction rounds generalizing ps argv redirs with
  | zero => cases done
  | succ rounds induction =>
    unfold parseargs at done
    dsimp only at done
    split at done
    · cases done
      exact words_wrap args files
    split at done
    · cases done
      exact words_wrap args files
    split at done
    · cases done
    next isWord =>
      split at done
      · cases done
      obtain ⟨more, parsed, done⟩ := bind_ok done
      refine induction ?_ ?_ done
      · intro token member
        rcases List.mem_append.mp member with member | member
        · exact args token member
        · rw [List.mem_singleton.mp member]
          exact gettoken_word (not_not.mp isWord)
      · intro redir member
        rcases List.mem_append.mp member with member | member
        · exact files redir member
        · exact parseredirs_words parsed redir member

theorem parseback_words {rounds ps : Nat} {result : Cmd × Nat} (words : Words text cmd)
    (done : parseback text rounds cmd ps = .ok result) : Words text result.1 := by
  induction rounds generalizing cmd ps with
  | zero => cases done
  | succ rounds induction =>
    unfold parseback at done
    split at done
    · have background : Words text (.back cmd) := words
      exact induction background done
    · cases done
      exact words

/-- The functions call each other with one round less. -/
theorem parse_words (rounds : Nat) :
    (∀ {ps result}, parseline text rounds ps = .ok result → Words text result.1) ∧
      (∀ {ps result}, parsepipe text rounds ps = .ok result → Words text result.1) ∧
      (∀ {ps result}, parseblock text rounds ps = .ok result → Words text result.1) ∧
      ∀ {ps result}, parseexec text rounds ps = .ok result → Words text result.1 := by
  induction rounds with
  | zero =>
    refine ⟨?_, ?_, ?_, ?_⟩ <;> intro ps result done
    · simp only [parseline, reduceCtorEq] at done
    · simp only [parsepipe, reduceCtorEq] at done
    · simp only [parseblock, reduceCtorEq] at done
    · simp only [parseexec, reduceCtorEq] at done
  | succ rounds induction =>
    obtain ⟨line, pipe, block, exec⟩ := induction
    refine ⟨?_, ?_, ?_, ?_⟩
    · intro ps result done
      unfold parseline at done
      obtain ⟨left, parsed, done⟩ := bind_ok done
      obtain ⟨left, looped, done⟩ := bind_ok done
      have words := parseback_words (pipe parsed) looped
      split at done
      · obtain ⟨right, parsed, done⟩ := bind_ok done
        cases done
        exact fun token member => (List.mem_append.mp member).elim (words token) (line parsed token)
      · cases done
        exact words
    · intro ps result done
      unfold parsepipe at done
      obtain ⟨left, parsed, done⟩ := bind_ok done
      have words := exec parsed
      split at done
      · obtain ⟨right, parsed, done⟩ := bind_ok done
        cases done
        exact fun token member => (List.mem_append.mp member).elim (words token) (pipe parsed token)
      · cases done
        exact words
    · intro ps result done
      unfold parseblock at done
      split at done
      · obtain ⟨inner, parsed, done⟩ := bind_ok done
        split at done
        · obtain ⟨redirs, files, done⟩ := bind_ok done
          cases done
          exact words_wrap (line parsed) (parseredirs_words files)
        · cases done
      · cases done
    · intro ps result done
      unfold parseexec at done
      split at done
      · exact block done
      · obtain ⟨redirs, files, done⟩ := bind_ok done
        exact parseargs_words (fun _ none => absurd none List.not_mem_nil) (parseredirs_words files) done

theorem foldl_update (argv : List (Nat × Nat)) (buf : Nat → UInt8) (i : Nat) :
    argv.foldl (fun buf arg => update buf arg.2 0) buf i =
      if ∃ token ∈ argv, token.2 = i then 0 else buf i := by
  induction argv generalizing buf with
  | nil => simp
  | cons arg argv induction =>
    rw [List.foldl_cons, induction]
    by_cases same : arg.2 = i
    · simp [same]
    · simp only [update_of_ne (Ne.symm same), List.mem_cons, exists_eq_or_imp, same, false_or]

theorem nulterminate_apply (cmd : Cmd) (buf : Nat → UInt8) (i : Nat) :
    nulterminate cmd buf i = if ∃ token ∈ cmd.tokens, token.2 = i then 0 else buf i := by
  induction cmd generalizing buf with
  | exec argv => exact foldl_update argv buf i
  | redir cmd file efile mode fd induction =>
    by_cases same : efile = i
    · simp [nulterminate, Cmd.tokens, same]
    · simp only [nulterminate, update_of_ne (Ne.symm same), induction, Cmd.tokens, List.mem_cons,
        exists_eq_or_imp, same, false_or]
  | pipe left right leftward rightward | list left right leftward rightward =>
    rw [nulterminate, rightward, leftward, ← ite_or]
    simp only [Cmd.tokens, List.mem_append, or_and_right, exists_or, or_comm]
  | back cmd induction => exact induction buf

/-- The characters from `q` up to `eq`. -/
def Token.chars (text : List UInt8) (q eq : Nat) : List UInt8 := (text.drop q).take (eq - q)

theorem Word.chars_length {q eq : Nat} (word : Word text (q, eq)) :
    (Token.chars text q eq).length = eq - q := by
  rw [Token.chars, List.length_take, List.length_drop]
  rcases Nat.eq_or_lt_of_le word.ordered with same | less
  · dsimp only at same
    omega
  · obtain ⟨c, last, -⟩ := word.inside (eq - 1) (Nat.le_sub_one_of_lt less)
      (Nat.sub_one_lt_of_lt less)
    have := (List.getElem?_eq_some_iff.mp last).1
    omega

/-- The C string at an address. -/
structure CString (buf : Nat → UInt8) (s : Nat) (chars : List UInt8) : Prop where
  bytes : ∀ i c, chars[i]? = some c → buf (s + i) = c ∧ c ≠ 0
  nul : buf (s + chars.length) = 0

end Xv6Lottery.Shell
