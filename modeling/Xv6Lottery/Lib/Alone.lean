import Xv6Lottery.Lib.Concurrent

/-! A program that runs alone on a state. -/

namespace Concurrent

namespace Prog

variable {Op : Type → Type 1} {state failure agent value result : Type}

section Run

variable (sem : ∀ result, agent → Op result → state → Effect state failure result) (self : agent)

/-- The program from a state to its end, with no other in between. -/
def run : Prog Op value → state → Effect state failure value
  | .pure outcome, start => .done outcome start
  | .op operation next, start =>
    match sem _ self operation start with
    | .wait => .wait
    | .stop reason => .stop reason
    | .done answer middle => (next answer).run middle

def Returns (prog : Prog Op value) (start : state) (post : value → state → Prop) : Prop :=
  ∃ outcome finish, prog.run sem self start = .done outcome finish ∧ post outcome finish

end Run

variable {sem : ∀ result, agent → Op result → state → Effect state failure result} {self : agent}
  {prog : Prog Op result} {after : result → Prog Op value} {start : state}

theorem run_bind : (prog >>= after).run sem self start = match prog.run sem self start with
      | .wait => .wait
      | .stop reason => .stop reason
      | .done answer middle => (after answer).run sem self middle := by
  induction prog generalizing start with
  | pure outcome => rfl
  | op operation next induction =>
    change run sem self (.op operation fun answer => next answer >>= after) start = _
    simp only [run]
    cases sem _ self operation start with
    | wait => rfl
    | stop reason => rfl
    | done answer middle => exact induction answer

namespace Returns

theorem pure {post : value → state → Prop} (holds : post outcome start) :
    (Pure.pure outcome : Prog Op value).Returns sem self start post :=
  ⟨outcome, start, rfl, holds⟩

theorem perform {post : value → state → Prop}
    (done : sem _ self operation start = .done answer finish) (holds : post answer finish) :
    (perform operation).Returns sem self start post := by
  refine ⟨answer, finish, ?_, holds⟩
  simp only [Prog.perform, run, done]

theorem bind {post : value → state → Prop} (first : prog.Returns sem self start fun answer middle =>
      (after answer).Returns sem self middle post) :
    (prog >>= after).Returns sem self start post := by
  obtain ⟨answer, middle, ran, outcome, finish, rest, holds⟩ := first
  refine ⟨outcome, finish, ?_, holds⟩
  rw [run_bind, ran]
  exact rest

theorem mono {post later : result → state → Prop} (first : prog.Returns sem self start post)
    (weaker : ∀ answer finish, post answer finish → later answer finish) :
    prog.Returns sem self start later := by
  obtain ⟨answer, finish, ran, holds⟩ := first
  exact ⟨answer, finish, ran, weaker _ _ holds⟩

theorem and {post other : result → state → Prop} (first : prog.Returns sem self start post)
    (second : prog.Returns sem self start other) :
    prog.Returns sem self start fun answer finish => post answer finish ∧ other answer finish := by
  obtain ⟨answer, finish, ran, holds⟩ := first
  obtain ⟨_, _, again, also⟩ := second
  cases ran.symm.trans again
  exact ⟨answer, finish, ran, holds, also⟩

theorem seq {middlePost : result → state → Prop} {post : value → state → Prop}
    (first : prog.Returns sem self start middlePost) (rest : ∀ answer middle,
      middlePost answer middle → (after answer).Returns sem self middle post) :
    (prog >>= after).Returns sem self start post :=
  bind (first.mono rest)

end Returns

/-! Operations that do what others do, or stop. -/

section Simulation

variable {coarse : Type}
  {abstract : ∀ result, agent → Op result → coarse → Effect coarse failure result}
  (rel : state → coarse → Prop) (goal : coarse → Prop) (allowed : failure → Prop)

section

variable (back : ∀ {result : Type} {operation : Op result} {rough finish : coarse} {answer :
  result}, abstract _ self operation rough = .done answer finish → goal finish → goal rough)

include back

theorem run_back (done : prog.run abstract self rough = .done answer finish)
    (reached : goal finish) : goal rough := by
  induction prog generalizing rough with
  | pure outcome =>
    cases done
    exact reached
  | op operation next induction =>
    simp only [run] at done
    split at done
    · cases done
    · cases done
    next early between first =>
      exact back first (induction early done)

/-- Operation by operation the one system returns what the other does,
unless it stops as allowed. -/
theorem run_simulates (step : ∀ {result : Type} {operation : Op result} {fine : state}
      {rough finish : coarse} {answer : result}, rel fine rough → abstract _ self operation rough =
      .done answer finish → goal finish → (∃ reason, allowed reason ∧ sem _ self operation fine =
      .stop reason) ∨ ∃ middle, sem _ self operation fine = .done answer middle ∧ rel middle finish)
    (related : rel start rough) (done : prog.run abstract self rough = .done answer finish)
    (reached : goal finish) :
    (∃ reason, allowed reason ∧ prog.run sem self start = .stop reason) ∨ ∃ middle,
      prog.run sem self start = .done answer middle ∧ rel middle finish := by
  induction prog generalizing start rough with
  | pure outcome =>
    cases done
    exact .inr ⟨start, rfl, related⟩
  | op operation next induction =>
    simp only [run] at done ⊢
    split at done
    · cases done
    · cases done
    next early between first =>
      obtain ⟨reason, allow, stops⟩ | ⟨middle, goes, kept⟩ :=
        step related first (run_back goal back done reached)
      · exact .inl ⟨reason, allow, by simp only [stops]⟩
      · simp only [goes]
        exact induction early kept done

end

end Simulation

end Prog

end Concurrent
