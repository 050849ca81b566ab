/-! Programs that change a state and may stop with a failure, and their
weakest preconditions: one postcondition for the values they return and one
for the failures they stop with. -/

namespace Outcome

abbrev Prog (state failure value : Type) : Type :=
  StateT state (Except failure) value

namespace Prog

variable {state failure value result : Type}

def wp (prog : Prog state failure value) (post : value → state → Prop)
    (fail : failure → Prop) (start : state) : Prop :=
  match prog.run start with
  | .ok (outcome, finish) => post outcome finish
  | .error reason => fail reason

variable {post : value → state → Prop} {fail : failure → Prop} {start : state}

@[simp] theorem wp_pure (outcome : value) :
    wp (pure outcome : Prog state failure value) post fail start ↔ post outcome start := Iff.rfl

@[simp] theorem wp_get {post : state → state → Prop} :
    wp (get : Prog state failure state) post fail start ↔ post start start := Iff.rfl

@[simp] theorem wp_modify {post : Unit → state → Prop} (change : state → state) :
    wp (modify change : Prog state failure Unit) post fail start ↔ post () (change start) := Iff.rfl

@[simp] theorem wp_throw (reason : failure) :
    wp (throw reason : Prog state failure value) post fail start ↔ fail reason := Iff.rfl

@[simp] theorem wp_bind (prog : Prog state failure result)
    (next : result → Prog state failure value) :
    wp (prog >>= next) post fail start ↔ wp prog
      (fun outcome middle => wp (next outcome) post fail middle) fail start := by
  unfold wp
  cases ran : prog.run start with
  | ok finish => simp [StateT.run_bind, ran]; rfl
  | error reason => simp [StateT.run_bind, ran]; rfl

@[simp] theorem wp_ite {condition : Prop} [Decidable condition]
    (first second : Prog state failure value) :
    wp (if condition then first else second) post fail start ↔
      (condition → wp first post fail start) ∧ (¬condition → wp second post fail start) := by
  by_cases holds : condition <;> simp [holds]

theorem wp_mono {later : value → state → Prop} (holds : wp prog post fail start)
    (weaker : ∀ outcome finish, post outcome finish → later outcome finish) :
    wp prog later fail start := by
  unfold wp at holds ⊢
  split at holds
  · exact weaker _ _ holds
  · exact holds

theorem wp_run (holds : wp prog post fail start) (ran : prog.run start = .ok (outcome, finish)) :
    post outcome finish := by
  unfold wp at holds
  rw [ran] at holds
  exact holds

theorem wp_error (holds : wp prog post fail start) (ran : prog.run start = .error reason) :
    fail reason := by
  unfold wp at holds
  rw [ran] at holds
  exact holds

end Prog

end Outcome
