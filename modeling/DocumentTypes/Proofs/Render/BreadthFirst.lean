import DocumentTypes.Proofs.FirstOccurrences
import DocumentTypes.Proofs.Render.Reachable
import Mathlib.Data.List.Induction
import Mathlib.Data.List.Nodup
import Mathlib.Logic.Function.Iterate
import Mathlib.Tactic.ByContra

/-!
Visiting types breadth first. The types are met in an order of their own (`World.visitOrder`), in
which the roots come first and then, type by type, what each leads to, every type at the place where
it is met first (`World.IsBreadthFirst`). This fixes the order (`IsBreadthFirst.unique`). A visit of
steady types evaluates them in that order, each once (`breadthFirst_eq_visitEach`), and ends after
as many turns as there are roots and links, and one more (`iterate_breadthFirstStep`).
-/

set_option autoImplicit false

namespace DocumentTypes.World

variable {P : Producers} {σ : Type}

/-- The types of the queue and those that they lead to, in the order in which they are met, without
types with a name in `seen`. -/
def visitOrder (w : World P) (leads : TypeId → List TypeId) (queue : List TypeId)
    (seen : List String) : List TypeId :=
  match queue with
  | [] => []
  | type :: rest =>
    if _hseen : (w.typeAt type).name ∈ seen then w.visitOrder leads rest seen
    else type :: w.visitOrder leads (rest ++ leads type) ((w.typeAt type).name :: seen)
termination_by ((unvisited w.typeNames seen).length, queue.length)
decreasing_by
  · exact Prod.Lex.right _ (by simp)
  · exact Prod.Lex.left _ _ (length_unvisited_lt (w.name_mem_typeNames type) _hseen
      (List.mem_cons_self ..) (List.subset_cons_self ..))

/-- One turn of the visit, with `visit` in the place of the turns after it. -/
def breadthFirstStep (w : World P) (outside : Outside P σ)
    (visit : List TypeId → List String → σ → Except BuildError (List (TypeId × FieldMap)) × σ) :
    List TypeId → List String → σ → Except BuildError (List (TypeId × FieldMap)) × σ
  | [], _, s => (.ok [], s)
  | type :: rest, seen, s =>
    if (w.typeAt type).name ∈ seen then visit rest seen s
    else
      match w.fields outside type s with
      | (.error e, s) => (.error e, s)
      | (.ok fields, s) =>
        match visit (rest ++ namedTypes fields) ((w.typeAt type).name :: seen) s with
        | (.error e, s) => (.error e, s)
        | (.ok visited, s) => (.ok ((type, fields) :: visited), s)

variable {w : World P} {outside : Outside P σ} {roots : List TypeId} {s s₁ : σ}

theorem breadthFirst_eq_breadthFirstStep (queue : List TypeId) (seen : List String) (s : σ) :
    w.breadthFirst outside queue seen s =
      w.breadthFirstStep outside (w.breadthFirst outside) queue seen s := by
  cases queue with
  | nil => rw [breadthFirst, breadthFirstStep]
  | cons type rest =>
    rw [breadthFirst, breadthFirstStep]
    split <;> rfl

section Step

variable {visit : List TypeId → List String → σ → Except BuildError (List (TypeId × FieldMap)) × σ}
  {type : TypeId} {rest : List TypeId} {seen : List String}

theorem breadthFirstStep_of_seen (h : (w.typeAt type).name ∈ seen) :
    w.breadthFirstStep outside visit (type :: rest) seen s = visit rest seen s := by
  rw [breadthFirstStep, if_pos h]

theorem breadthFirstStep_of_error (hnew : (w.typeAt type).name ∉ seen) {e : BuildError}
    (h : w.fields outside type s = (.error e, s₁)) :
    w.breadthFirstStep outside visit (type :: rest) seen s = (.error e, s₁) := by
  rw [breadthFirstStep, if_neg hnew, h]

theorem breadthFirstStep_of_ok (hnew : (w.typeAt type).name ∉ seen) {fields : FieldMap}
    (h : w.fields outside type s = (.ok fields, s₁)) :
    w.breadthFirstStep outside visit (type :: rest) seen s =
      let result := visit (rest ++ namedTypes fields) ((w.typeAt type).name :: seen) s₁
      (result.1.map ((type, fields) :: ·), result.2) := by
  rw [breadthFirstStep, if_neg hnew, h]
  dsimp only
  rcases visit (rest ++ namedTypes fields) ((w.typeAt type).name :: seen) s₁ with
    ⟨e | visited, s₂⟩ <;> rfl

end Step

/-- A visit of steady types evaluates them in the order in which they are met. -/
theorem breadthFirst_eq_visitEach (hsteady : w.Steady outside namedTypes s roots)
    (queue : List TypeId) (seen : List String)
    (hpass : w.Passes outside (w.reachable outside s roots) s s₁)
    (hqueue : ∀ t ∈ queue, t ∈ w.reachable outside s roots) :
    w.breadthFirst outside queue seen s₁ =
      w.visitEach outside (w.visitOrder (w.leads outside s) queue seen) s₁ := by
  induction queue, seen using visitOrder.induct w (w.leads outside s) generalizing s₁ with
  | case1 seen => rw [breadthFirst, visitOrder, visitEach]
  | case2 seen type rest hseen ih =>
    rw [breadthFirst_eq_breadthFirstStep, breadthFirstStep_of_seen hseen, visitOrder,
      dif_pos hseen]
    exact ih hpass (List.forall_mem_cons.mp hqueue).2
  | case3 seen type rest hnew ih =>
    obtain ⟨htype, hrest⟩ := List.forall_mem_cons.mp hqueue
    rw [breadthFirst_eq_breadthFirstStep, visitOrder, dif_neg hnew]
    rcases hfields : w.fields outside type s₁ with ⟨e | fields, s₂⟩
    · rw [breadthFirstStep_of_error hnew hfields, visitEach_cons_of_error hfields]
    · have hleads := hsteady.leads_eq hpass htype hfields
      rw [breadthFirstStep_of_ok hnew hfields, visitEach_cons_of_ok hfields, ← hleads]
      dsimp only
      rw [ih (hpass.step htype hfields) (List.forall_mem_append.mpr
        ⟨hrest, fun u hu ↦ reachable_of_leads htype hu⟩)]

/-- The types that are done, and behind them those that are met now, are what is done, what waits
and what is led to, each at the place where it comes first. -/
theorem append_visitOrder {leads : TypeId → List TypeId} {types : Set TypeId}
    (hnames : Set.InjOn (fun t ↦ (w.typeAt t).name) types)
    (hclosed : ∀ t ∈ types, ∀ u ∈ leads t, u ∈ types) (queue : List TypeId) (seen : List String)
    (done : List TypeId) (hqueue : ∀ t ∈ queue, t ∈ types) (hdone : ∀ t ∈ done, t ∈ types)
    (hnodup : done.Nodup) (hseen : ∀ name, name ∈ seen ↔ ∃ t ∈ done, (w.typeAt t).name = name) :
    done ++ w.visitOrder leads queue seen =
      (done ++ queue ++ (w.visitOrder leads queue seen).flatMap leads).eraseDups := by
  induction queue, seen using visitOrder.induct w leads generalizing done with
  | case1 seen =>
    rw [visitOrder, List.flatMap_nil, List.append_nil, List.append_nil, eraseDups_of_nodup hnodup]
  | case2 seen type rest hold ih =>
    obtain ⟨htype, hrest⟩ := List.forall_mem_cons.mp hqueue
    obtain ⟨t, ht, hname⟩ := (hseen _).mp hold
    obtain rfl := hnames (hdone t ht) htype hname
    rw [visitOrder, dif_pos hold, List.append_assoc, List.cons_append,
      eraseDups_append_cons_of_mem ht, ← List.append_assoc]
    exact ih done hrest hdone hnodup hseen
  | case3 seen type rest hnew ih =>
    obtain ⟨htype, hrest⟩ := List.forall_mem_cons.mp hqueue
    have hfresh : type ∉ done := fun hmem ↦ hnew ((hseen _).mpr ⟨type, hmem, rfl⟩)
    have hnext := ih (done ++ [type])
      (List.forall_mem_append.mpr ⟨hrest, hclosed type htype⟩)
      (List.forall_mem_append.mpr ⟨hdone, List.forall_mem_singleton.mpr htype⟩)
      (List.nodup_append.mpr ⟨hnodup, List.nodup_singleton type, by grind⟩)
      (by intro name; grind)
    rw [visitOrder, dif_neg hnew, List.flatMap_cons]
    simpa only [List.append_assoc, List.cons_append, List.nil_append] using hnext

theorem visitOrder_subset {leads : TypeId → List TypeId} {types : Set TypeId}
    (hclosed : ∀ t ∈ types, ∀ u ∈ leads t, u ∈ types) (queue : List TypeId) (seen : List String)
    (hqueue : ∀ t ∈ queue, t ∈ types) : ∀ t ∈ w.visitOrder leads queue seen, t ∈ types := by
  induction queue, seen using visitOrder.induct w leads with
  | case1 seen =>
    rw [visitOrder]
    exact fun t ht ↦ absurd ht List.not_mem_nil
  | case2 seen type rest hold ih =>
    rw [visitOrder, dif_pos hold]
    exact ih (List.forall_mem_cons.mp hqueue).2
  | case3 seen type rest hnew ih =>
    obtain ⟨htype, hrest⟩ := List.forall_mem_cons.mp hqueue
    rw [visitOrder, dif_neg hnew]
    exact List.forall_mem_cons.mpr
      ⟨htype, ih (List.forall_mem_append.mpr ⟨hrest, hclosed type htype⟩)⟩

/-- The reached types in the order in which they are met: the roots, then those that the first type
of the order leads to, then those that the second leads to, and so on. -/
structure IsBreadthFirst (w : World P) (outside : Outside P σ) (s : σ)
    (roots order : List TypeId) : Prop where
  nodup : order.Nodup
  mem_iff : ∀ t, t ∈ order ↔ t ∈ w.reachable outside s roots
  eq_eraseDups : order = (roots ++ order.flatMap (w.leads outside s)).eraseDups

theorem isBreadthFirst_visitOrder (hnames : w.DistinctNames outside s roots) :
    w.IsBreadthFirst outside s roots (w.visitOrder (w.leads outside s) roots []) := by
  have hclosed : ∀ t ∈ w.reachable outside s roots, ∀ u ∈ w.leads outside s t,
      u ∈ w.reachable outside s roots := fun t ht u hu ↦ reachable_of_leads ht hu
  have hroots : ∀ t ∈ roots, t ∈ w.reachable outside s roots := fun t ↦ reachable_of_mem
  have heq := append_visitOrder hnames hclosed roots [] [] hroots (by simp) List.nodup_nil (by simp)
  rw [List.nil_append, List.nil_append] at heq
  have hsubset : w.reachable outside s roots ⊆
      {t | t ∈ w.visitOrder (w.leads outside s) roots []} := by
    refine reachable_subset (fun root hroot ↦ ?_) fun t ht u hu ↦ ?_
    · show root ∈ w.visitOrder (w.leads outside s) roots []
      rw [heq, List.mem_eraseDups]
      exact List.mem_append_left _ hroot
    · show u ∈ w.visitOrder (w.leads outside s) roots []
      rw [heq, List.mem_eraseDups]
      exact List.mem_append_right _ (List.mem_flatMap.mpr ⟨t, ht, hu⟩)
  refine ⟨?_, fun t ↦ ⟨visitOrder_subset hclosed roots [] hroots t, fun ht ↦ hsubset ht⟩, heq⟩
  rw [heq]
  exact nodup_eraseDups _

/-- Steady types with pairwise different names are visited breadth first, each once. -/
theorem Steady.exists_order (hsteady : w.Steady outside namedTypes s roots)
    (hnames : w.DistinctNames outside s roots) :
    ∃ order, w.IsBreadthFirst outside s roots order ∧
      w.breadthFirst outside roots [] s = w.visitEach outside order s :=
  ⟨_, isBreadthFirst_visitOrder hnames,
    breadthFirst_eq_visitEach hsteady roots [] (Passes.refl _ s) fun _ ↦ reachable_of_mem⟩

section Unique

variable {order other front : List TypeId} (h : w.IsBreadthFirst outside s roots order)

include h

/-- What the front of the order leads to stands in front. -/
theorem IsBreadthFirst.prefix_of_front (hfront : front <+: order) :
    (roots ++ front.flatMap (w.leads outside s)).eraseDups <+: order := by
  obtain ⟨rest, rfl⟩ := hfront
  have heq := h.eq_eraseDups
  rw [List.flatMap_append, ← List.append_assoc, List.eraseDups_append] at heq
  exact ⟨_, heq.symm⟩

/-- Where the order goes on, the front leads to a type that is not part of it. -/
theorem IsBreadthFirst.exists_next (hfront : front <+: order) (hne : front ≠ order) :
    ∃ t ∈ roots ++ front.flatMap (w.leads outside s), t ∉ front := by
  by_contra! hclosed
  have hsubset : w.reachable outside s roots ⊆ {t | t ∈ front} := by
    refine reachable_subset (fun root hroot ↦ hclosed root (List.mem_append_left _ hroot)) ?_
    intro t ht u hu
    exact hclosed u (List.mem_append_right _ (List.mem_flatMap.mpr ⟨t, ht, hu⟩))
  obtain ⟨rest, rfl⟩ := hfront
  cases rest with
  | nil => exact hne (List.append_nil front).symm
  | cons t rest =>
    have hmem : t ∈ front := hsubset ((h.mem_iff t).mp (by simp))
    exact (List.nodup_append.mp h.nodup).2.2 t hmem t List.mem_cons_self rfl

theorem IsBreadthFirst.isPrefix (hother : w.IsBreadthFirst outside s roots other) :
    order <+: other := by
  have hfronts (n : Nat) : order.take n <+: other := by
    induction n with
    | zero => exact List.nil_prefix
    | succ n ih =>
      have hfront := List.take_prefix n order
      by_cases hall : order.take n = order
      · rw [List.take_of_length_le]
        · exact hall ▸ ih
        · have hlength := congrArg List.length hall
          rw [List.length_take] at hlength
          omega
      · obtain ⟨t, ht, hnew⟩ := h.exists_next hfront hall
        have hled := h.prefix_of_front hfront
        have hlonger : (order.take n).length <
            (roots ++ (order.take n).flatMap (w.leads outside s)).eraseDups.length := by
          by_contra! hle
          exact hnew ((List.prefix_of_prefix_length_le hled hfront hle).subset
            (List.mem_eraseDups.mpr ht))
        refine (List.prefix_of_prefix_length_le (List.take_prefix (n + 1) order) hled ?_).trans
          (hother.prefix_of_front ih)
        grind
  have hall := hfronts order.length
  rwa [List.take_length] at hall

end Unique

/-- There is one such order. -/
theorem IsBreadthFirst.unique {order other : List TypeId}
    (h : w.IsBreadthFirst outside s roots order) (hother : w.IsBreadthFirst outside s roots other) :
    order = other :=
  (h.isPrefix hother).eq_of_length_le (hother.isPrefix h).length_le

end DocumentTypes.World
