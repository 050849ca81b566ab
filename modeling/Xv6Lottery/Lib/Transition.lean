/-! Runs of a labelled step relation, with their labels in order, and the
induction rules every safety result uses. -/

namespace Transition

universe u v

variable {state : Type u} {label : Type v}

inductive Run (step : state → label → state → Prop) : state → List label → state → Prop
  | refl : Run step start [] start
  | tail : Run step start labels middle → step middle event finish →
      Run step start (labels ++ [event]) finish

def Reachable (step : state → label → state → Prop) (start finish : state) : Prop :=
  ∃ labels, Run step start labels finish

namespace Run

variable {step : state → label → state → Prop}

theorem single (taken : step start event finish) : Run step start [event] finish :=
  .tail .refl taken

theorem trans (firstRun : Run step start first middle) (secondRun : Run step middle second finish) :
    Run step start (first ++ second) finish := by
  induction secondRun with
  | refl => simpa using firstRun
  | tail _ taken induction =>
    rw [← List.append_assoc]
    exact .tail induction taken

theorem mono {weaker : state → label → state → Prop} (run : Run step start labels finish)
    (implies : ∀ {middle event next}, step middle event next → weaker middle event next) :
    Run weaker start labels finish := by
  induction run with
  | refl => exact .refl
  | tail _ taken induction => exact .tail induction (implies taken)

theorem before (run : Run step start (first ++ event :: second) finish) :
    ∃ middle next, Run step start first middle ∧ step middle event next := by
  generalize whole : first ++ event :: second = labels at run
  induction run generalizing second with
  | refl => simp at whole
  | @tail past middle last next run taken induction =>
    rcases List.eq_nil_or_concat second with rfl | ⟨init, final, rfl⟩
    · obtain ⟨rfl, same⟩ := List.append_inj' whole rfl
      cases same
      exact ⟨middle, next, run, taken⟩
    · rw [List.concat_eq_append, ← List.cons_append, ← List.append_assoc] at whole
      obtain ⟨same, _⟩ := List.append_inj' whole rfl
      exact induction same

/-- An invariant of states and the labels that led to them. -/
theorem history (holds : List label → state → Prop) (initial : holds [] start)
    (preserved : ∀ {past middle event next}, Run step start past middle → holds past middle →
      step middle event next → holds (past ++ [event]) next) (run : Run step start labels finish) :
    holds labels finish := by
  induction run with
  | refl => exact initial
  | tail run taken induction => exact preserved run induction taken

theorem invariant (holds : state → Prop) (initial : holds start)
    (preserved : ∀ {middle event next}, holds middle → step middle event next → holds next)
    (run : Run step start labels finish) : holds finish := by
  induction run with
  | refl => exact initial
  | tail _ taken induction => exact preserved induction taken

/-- An invariant of the runs whose labels are all of a kind. -/
theorem along (kind : label → Prop) (holds : state → Prop) (initial : holds start)
    (preserved : ∀ {middle event next}, kind event → holds middle → step middle event next →
      holds next) (run : Run step start labels finish) (kinds : ∀ event ∈ labels, kind event) :
    holds finish := by
  induction run with
  | refl => exact initial
  | tail _ taken induction =>
    have before := induction fun event member =>
      kinds event (List.mem_append_left _ member)
    exact preserved (kinds _ (by simp)) before taken

theorem restrict (kind : label → Prop) (holds : state → Prop) (initial : holds start)
    (preserved : ∀ {middle event next}, kind event → holds middle → step middle event next →
      holds next) (run : Run step start labels finish) (kinds : ∀ event ∈ labels, kind event) :
    Run (fun middle event next => (kind event ∧ holds middle) ∧
        step middle event next) start labels finish := by
  induction run with
  | refl => exact .refl
  | tail past taken induction =>
    have before : ∀ event ∈ _, kind event := fun event member =>
      kinds event (List.mem_append_left _ member)
    have now := kinds _ (List.mem_append_right _ List.mem_cons_self)
    exact .tail (induction before) ⟨⟨now, past.along kind holds initial preserved before⟩, taken⟩

end Run

/-! Runs that can be computed. -/

def exec (next : state → label → Option state) (start : state) : List label → Option state
  | [] => some start
  | event :: rest => (next start event).bind fun middle =>
    exec next middle rest

theorem Run.exec {step : state → label → state → Prop}
    (sound : ∀ {before event after}, next before event = some after → step before event after)
    (done : Transition.exec next start labels = some finish) : Run step start labels finish := by
  induction labels generalizing start with
  | nil =>
    cases done
    exact .refl
  | cons event rest induction =>
    obtain ⟨middle, taken, remaining⟩ := Option.bind_eq_some_iff.mp done
    exact (Run.single (sound taken)).trans (induction remaining)

end Transition
