/-! Spinlocks with a recorded owner, against the locks that each agent holds
according to its own control state. -/

namespace Ownership

variable {lock agent : Type}

def Owns (owner : lock → Option agent) (held : agent → lock → Prop) : Prop :=
  ∀ target holder, owner target = some holder ↔ held holder target

variable {owner changed : lock → Option agent} {held after : agent → lock → Prop}

theorem Owns.exclusive (owns : Owns owner held) (first : held holder target)
    (second : held other target) : holder = other := by
  have same := ((owns target holder).mpr first).symm.trans ((owns target other).mpr second)
  exact Option.some.inj same

theorem Owns.not_held (owns : Owns owner held) (free : owner target = none) (holder : agent) :
    ¬held holder target := by
  intro holds
  have taken := (owns target holder).mpr holds
  rw [free] at taken
  cases taken

theorem Owns.congr (owns : Owns owner held)
    (same : ∀ holder target, after holder target ↔ held holder target) : Owns owner after := by
  intro target holder
  rw [same]
  exact owns target holder

theorem Owns.transfer (owns : Owns owner held) (self : agent) (released acquired : lock → Prop)
    (others : ∀ other, other ≠ self → ∀ target, after other target ↔ held other target)
    (own : ∀ target, after self target ↔ acquired target ∨ held self target ∧ ¬released target)
    (free : ∀ target, acquired target → owner target = none)
    (mine : ∀ target, released target → held self target)
    (gone : ∀ target, released target → changed target = none)
    (taken : ∀ target, acquired target → changed target = some self)
    (kept : ∀ target, ¬released target → ¬acquired target → changed target = owner target) :
    Owns changed after := by
  classical
  intro target holder
  by_cases releases : released target
  · have notAcquired : ¬acquired target := fun acquires =>
      owns.not_held (free target acquires) self (mine target releases)
    rw [gone target releases]
    constructor
    · intro absent
      cases absent
    · intro holds
      by_cases same : holder = self
      · rw [same, own] at holds
        rcases holds with acquires | ⟨_, stays⟩
        · exact absurd acquires notAcquired
        · exact absurd releases stays
      · exact absurd (owns.exclusive ((others holder same target).mp holds)
            (mine target releases)) same
  · by_cases acquires : acquired target
    · rw [taken target acquires]
      constructor
      · intro same
        cases same
        exact (own target).mpr (.inl acquires)
      · intro holds
        by_cases same : holder = self
        · rw [same]
        · exact absurd ((others holder same target).mp holds)
            (owns.not_held (free target acquires) holder)
    · rw [kept target releases acquires, owns target holder]
      by_cases same : holder = self
      · rw [same, own]
        constructor
        · intro holds
          exact .inr ⟨holds, releases⟩
        · rintro (wrong | ⟨holds, _⟩)
          · exact absurd wrong acquires
          · exact holds
      · exact (others holder same target).symm

end Ownership
