/-! Parent pointers that lead to a root. -/

namespace Forest

variable {node : Type} {parent changed : node → Option node} {root : node}

inductive Rooted (parent : node → Option node) (root : node) : node → Prop
  | root : Rooted parent root root
  | step : parent child = some above → Rooted parent root above → Rooted parent root child

/-- Nodes that stay lead to the root as before, when each of their pointers
is kept, to a node that stays, or redirected to the root. -/
theorem Rooted.transport (stays : node → Prop) (edges : ∀ {child above}, child ≠ root →
      stays child → parent child = some above → stays above ∧ changed child = some above ∨
      changed child = some root) (rooted : Rooted parent root start) (kept : stays start) :
    Rooted changed root start := by
  induction rooted with
  | root => exact .root
  | @step child above points _ induction =>
    by_cases top : child = root
    · rw [top]
      exact .root
    · rcases edges top kept points with ⟨aboveStays, same⟩ | redirected
      · exact .step same (induction aboveStays)
      · exact .step redirected .root

end Forest
