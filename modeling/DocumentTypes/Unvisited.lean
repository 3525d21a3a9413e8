/-!
What is left to visit: the measure by which searches over finitely many things end.
-/

set_option autoImplicit false

namespace DocumentTypes

variable {α : Type} [DecidableEq α]

/-- The members of `all` that are not among the visited ones. -/
def unvisited (all visited : List α) : List α :=
  all.filter fun a ↦ a ∉ visited

theorem mem_unvisited {all visited : List α} {a : α} :
    a ∈ unvisited all visited ↔ a ∈ all ∧ a ∉ visited := by
  simp [unvisited]

/-- Visiting one more member leaves fewer to visit. -/
theorem length_unvisited_lt {all visited visited' : List α} {a : α} (hmem : a ∈ all)
    (hnew : a ∉ visited) (hold : a ∈ visited') (hsub : visited ⊆ visited') :
    (unvisited all visited').length < (unvisited all visited).length := by
  have heq : unvisited all visited' = (unvisited all visited).filter (fun b ↦ b ∉ visited') := by
    rw [unvisited, unvisited, List.filter_filter]
    apply List.filter_congr
    intro b _
    by_cases hb : b ∈ visited
    · simp [hb, hsub hb]
    · simp [hb]
  rw [heq, List.length_filter_lt_length_iff_exists]
  exact ⟨a, mem_unvisited.mpr ⟨hmem, hnew⟩, by simp [hold]⟩

end DocumentTypes
