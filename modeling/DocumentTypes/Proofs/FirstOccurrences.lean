import Mathlib.Data.List.Induction
import Mathlib.Data.List.Nodup

/-!
The members of a list in the order of their first occurrences (`List.eraseDups`). Each occurs once
(`nodup_eraseDups`), and a member that occurred before adds nothing
(`eraseDups_append_cons_of_mem`).
-/

set_option autoImplicit false

namespace DocumentTypes

variable {α : Type} [DecidableEq α]

theorem eraseDups_concat (l : List α) (a : α) :
    (l ++ [a]).eraseDups = if a ∈ l.eraseDups then l.eraseDups else l.eraseDups ++ [a] := by
  rw [List.eraseDups_append]
  by_cases hmem : a ∈ l
  · rw [if_pos (List.mem_eraseDups.mpr hmem)]
    simp [List.removeAll, hmem]
  · rw [if_neg fun h ↦ hmem (List.mem_eraseDups.mp h)]
    simp [List.removeAll, hmem, List.eraseDups_cons]

theorem nodup_eraseDups (l : List α) : l.eraseDups.Nodup := by
  induction l using List.reverseRecOn with
  | nil => exact List.nodup_nil
  | append_singleton l a ih =>
    rw [eraseDups_concat]
    split
    · exact ih
    · next hnew =>
      refine List.nodup_append.mpr ⟨ih, List.nodup_singleton a, fun b hb c hc ↦ ?_⟩
      rw [List.mem_singleton.mp hc]
      exact fun h ↦ hnew (h ▸ hb)

theorem eraseDups_of_nodup {l : List α} (hnodup : l.Nodup) : l.eraseDups = l := by
  induction l using List.reverseRecOn with
  | nil => rfl
  | append_singleton l a ih =>
    obtain ⟨hfirst, -, hne⟩ := List.nodup_append.mp hnodup
    have hnew : a ∉ l := fun hmem ↦ hne a hmem a List.mem_cons_self rfl
    rw [eraseDups_concat, ih hfirst, if_neg hnew]

/-- A member that occurred before adds nothing. -/
theorem eraseDups_append_cons_of_mem {l : List α} {a : α} (hmem : a ∈ l) (rest : List α) :
    (l ++ a :: rest).eraseDups = (l ++ rest).eraseDups := by
  have hremoved : (a :: rest).removeAll l = rest.removeAll l := by
    simp [List.removeAll, hmem]
  rw [List.eraseDups_append, List.eraseDups_append, hremoved]

end DocumentTypes
