import DocumentTypes.FileTree
import Mathlib.Tactic.SplitIfs

/-!
What writing a file changes. The path of the file leads through directories, and none of them is at
the place that is written, so the path leads there afterwards too: the file is found with the new
content, and nothing at another place has changed (`FileTree.find_of_write`).
-/

set_option autoImplicit false

namespace DocumentTypes.FileTree

variable {tree tree' : FileTree} {isAbsolute : Bool} {spot : String} {node : FileNode}

/-- A directory stays one when something is put at a place that holds none. -/
theorem nodeAt_insert {steps : List String} (hspot : tree.nodes.lookup? spot ≠ some .directory)
    (h : tree.nodeAt isAbsolute steps = some .directory) :
    nodeAt ⟨tree.nodes.insert spot node⟩ isAbsolute steps = some .directory := by
  unfold nodeAt at h ⊢
  split_ifs at h ⊢
  · rfl
  · have hne : place isAbsolute steps ≠ spot := fun heq ↦ hspot (heq ▸ h)
    rw [OrderedMap.lookup?_insert, if_neg hne, h]

/-- Steps lead to the same place when something is put at a place that holds no directory. -/
theorem follow_insert {walked steps reached : List String}
    (hspot : tree.nodes.lookup? spot ≠ some .directory)
    (h : tree.follow isAbsolute walked steps = .ok reached) :
    follow ⟨tree.nodes.insert spot node⟩ isAbsolute walked steps = .ok reached := by
  induction steps generalizing walked with
  | nil => exact h
  | cons step rest ih =>
    rw [follow] at h ⊢
    split at h
    · cases h
    · cases h
    · next hdirectory =>
      rw [nodeAt_insert hspot hdirectory]
      dsimp only
      split_ifs at h ⊢
      exact ih h

theorem reach_insert {path : String} {steps reached : List String}
    (hspot : tree.nodes.lookup? spot ≠ some .directory)
    (h : tree.reach path steps = .ok reached) :
    reach ⟨tree.nodes.insert spot node⟩ path steps = .ok reached := by
  unfold reach at h ⊢
  split_ifs at h ⊢
  exact follow_insert hspot h

/-- A file that was written is found with its text, and no other place was changed. -/
theorem find_of_write {path text : String} (h : tree.write path text = .ok tree') :
    tree'.find path = .ok (.file text.toUTF8) ∧
      ∃ spot, ∀ other ≠ spot, tree'.nodes.lookup? other = tree.nodes.lookup? other := by
  unfold write at h
  dsimp only at h
  split_ifs at h with hdirectory
  · split at h <;> cases h
  · split at h
    · cases h
    · next steps hreach =>
      split at h
      · cases h
      · next hnode =>
        cases h
        have hsteps : ¬ steps.all (· = "..") = true := fun hall ↦ hnode (if_pos hall)
        have hspot : tree.nodes.lookup? (place (FilePath.ofText path).isAbsolute steps) ≠
            some .directory := by
          intro hlookup
          exact hnode ((if_neg hsteps).trans hlookup)
        refine ⟨?_, _, fun other hother ↦ by rw [OrderedMap.lookup?_insert, if_neg hother]⟩
        have hfound : nodeAt ⟨tree.nodes.insert (place (FilePath.ofText path).isAbsolute steps)
            (.file text.toUTF8)⟩ (FilePath.ofText path).isAbsolute steps =
              some (.file text.toUTF8) := by
          rw [nodeAt, if_neg hsteps, OrderedMap.lookup?_insert, if_pos rfl]
        unfold find
        simp only [reach_insert hspot hreach, hfound, hdirectory]
        rfl

end DocumentTypes.FileTree
