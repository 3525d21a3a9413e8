import DocumentTypes.Proofs.OrderedMap
import DocumentTypes.Workbench.Step

/-!
What an evaluation of recorded fields runs and what it yields, for producers that may read and
change any state. A layer makes some assignments or fails (`FieldLayer.assignments`). Either all
layers make theirs in order or there is a first one that fails (`FieldThunk.assigns_or_fails`), and
this is what an evaluation yields. Which producers are run is observed by a runner that keeps a log
(`Runner.logged`), and keeping it changes nothing else (`FieldLayer.assignments_logged`). Both are
put together for the layers that any calls recorded, at a workbench where they may have been
evaluated before (`evaluate_recorded`).
-/

set_option autoImplicit false

namespace DocumentTypes

variable {F M σ : Type} {run : Runner F M σ} {layer : FieldLayer F M} {s s' s₁ : σ} {e : BuildError}

/-- Records what a layer says, by the call for it. -/
def FieldThunk.record (thunk : FieldThunk F M) : FieldLayer F M → FieldThunk F M
  | .field name spec => thunk.setField name spec
  | .deferred name producer => thunk.setDeferred name producer
  | .merge source => thunk.merge source

namespace FieldLayer

/-- The producer of a layer, if there is one. -/
def producer? : FieldLayer F M → Option (F ⊕ M)
  | .field .. => none
  | .deferred _ producer => some (.inl producer)
  | .merge (.ready _) => none
  | .merge (.deferred producer) => some (.inr producer)

/-- The assignments that a layer makes, in order. -/
def assignments (run : Runner F M σ) :
    FieldLayer F M → σ → Except BuildError (List (String × FieldSpec)) × σ
  | .field name spec, s => (.ok [(name, spec)], s)
  | .deferred name producer, s =>
    ((run.field producer s).1.map fun spec ↦ [(name, spec)], (run.field producer s).2)
  | .merge source, s => ((source.resolve run s).1.map OrderedMap.entries, (source.resolve run s).2)

/-- A layer that fails has a producer. -/
theorem exists_producer_of_error (h : layer.assignments run s = (.error e, s')) :
    ∃ producer, layer.producer? = some producer := by
  cases layer with
  | field name spec => cases h
  | deferred name producer => exact ⟨.inl producer, rfl⟩
  | merge source =>
    cases source with
    | ready fields => cases h
    | deferred producer => exact ⟨.inr producer, rfl⟩

end FieldLayer

/-- The producers of recorded layers, oldest first. -/
def FieldThunk.producers (thunk : FieldThunk F M) : List (F ⊕ M) :=
  thunk.filterMap FieldLayer.producer?

/-- Layers that make assignments one after the other, from one state to another. -/
inductive Assigns (run : Runner F M σ) :
    List (FieldLayer F M) → σ → List (String × FieldSpec) → σ → Prop where
  | nil (s : σ) : Assigns run [] s [] s
  | cons {layer : FieldLayer F M} {rest : List (FieldLayer F M)} {s s₁ s₂ : σ}
      {first more : List (String × FieldSpec)}
      (hfirst : layer.assignments run s = (.ok first, s₁)) (hmore : Assigns run rest s₁ more s₂) :
      Assigns run (layer :: rest) s (first ++ more) s₂

namespace FieldThunk

variable {thunk calls before after : List (FieldLayer F M)} {assigned : List (String × FieldSpec)}

/-- Calls append their layers. -/
theorem foldl_record (thunk : FieldThunk F M) (calls : List (FieldLayer F M)) :
    calls.foldl record thunk = thunk ++ calls := by
  induction calls generalizing thunk with
  | nil => exact (List.append_nil thunk).symm
  | cons layer calls ih =>
    have hrecord : thunk.record layer = thunk ++ [layer] := by cases layer <;> rfl
    rw [List.foldl_cons, ih, hrecord, List.append_assoc, List.singleton_append]

/-! ### Assignments and failures -/

/-- An evaluation makes the assignments of the first layer and goes on with the others. -/
theorem evaluateOnto_cons (run : Runner F M σ) (fields : FieldMap) (layer : FieldLayer F M)
    (rest : List (FieldLayer F M)) (s : σ) :
    evaluateOnto run fields (layer :: rest) s =
      match layer.assignments run s with
      | (.error e, s) => (.error e, s)
      | (.ok first, s) => evaluateOnto run (fields.insertAll first) rest s := by
  cases layer with
  | field name spec => rfl
  | deferred name producer =>
    rcases hrun : run.field producer s with ⟨e | spec, s'⟩
    · simp only [evaluateOnto, FieldLayer.assignments, hrun, Except.map]
    · simp only [evaluateOnto, FieldLayer.assignments, hrun, Except.map]
      rfl
  | merge source =>
    rcases hrun : source.resolve run s with ⟨e | more, s'⟩ <;>
      simp only [evaluateOnto, FieldLayer.assignments, hrun, Except.map]

theorem evaluateOnto_of_assigns (h : Assigns run thunk s assigned s') (fields : FieldMap) :
    evaluateOnto run fields thunk s = (.ok (fields.insertAll assigned), s') := by
  induction h generalizing fields with
  | nil s => rfl
  | cons hfirst _ ih =>
    rw [evaluateOnto_cons, hfirst, OrderedMap.insertAll_append]
    exact ih _

theorem evaluateOnto_of_failure (hbefore : Assigns run before s assigned s₁)
    (hlayer : layer.assignments run s₁ = (.error e, s')) (fields : FieldMap) :
    evaluateOnto run fields (before ++ layer :: after) s = (.error e, s') := by
  induction hbefore generalizing fields with
  | nil s => rw [List.nil_append, evaluateOnto_cons, hlayer]
  | cons hfirst _ ih =>
    rw [List.cons_append, evaluateOnto_cons, hfirst]
    exact ih hlayer _

/-- Either all layers make their assignments, or there is a first one that fails. -/
theorem assigns_or_fails (run : Runner F M σ) (thunk : FieldThunk F M) (s : σ) :
    (∃ assigned s', Assigns run thunk s assigned s') ∨
      ∃ before layer after assigned s₁ e s', thunk = before ++ layer :: after ∧
        Assigns run before s assigned s₁ ∧ layer.assignments run s₁ = (.error e, s') := by
  induction thunk generalizing s with
  | nil => exact Or.inl ⟨[], s, .nil s⟩
  | cons layer rest ih =>
    rcases hlayer : layer.assignments run s with ⟨e | first, s₁⟩
    · exact Or.inr ⟨[], layer, rest, [], s, e, s₁, rfl, .nil s, hlayer⟩
    · rcases ih s₁ with ⟨assigned, s', hrest⟩ |
        ⟨before, failing, after, assigned, s₂, e, s', rfl, hbefore, hfailing⟩
      · exact Or.inl ⟨first ++ assigned, s', .cons hlayer hrest⟩
      · exact Or.inr ⟨layer :: before, failing, after, first ++ assigned, s₂, e, s', rfl,
          .cons hlayer hbefore, hfailing⟩

end FieldThunk

/-! ### The log -/

/-- Runs producers as `run` does and appends each of them to a log. -/
def Runner.logged (run : Runner F M σ) : Runner F M (σ × List (F ⊕ M)) where
  field producer s :=
    ((run.field producer s.1).1, (run.field producer s.1).2, s.2 ++ [.inl producer])
  fieldMap producer s :=
    ((run.fieldMap producer s.1).1, (run.fieldMap producer s.1).2, s.2 ++ [.inr producer])

/-- A layer runs its producer once, and the log of it changes nothing else. -/
theorem FieldLayer.assignments_logged (run : Runner F M σ) (layer : FieldLayer F M) (s : σ)
    (log : List (F ⊕ M)) :
    layer.assignments run.logged (s, log) =
      ((layer.assignments run s).1, (layer.assignments run s).2,
        log ++ layer.producer?.toList) := by
  cases layer with
  | field name spec => exact Prod.ext rfl (Prod.ext rfl (List.append_nil log).symm)
  | deferred name producer => rfl
  | merge source =>
    cases source with
    | ready fields => exact Prod.ext rfl (Prod.ext rfl (List.append_nil log).symm)
    | deferred producer => rfl

theorem FieldThunk.producers_cons (layer : FieldLayer F M) (rest : List (FieldLayer F M)) :
    producers (layer :: rest) = layer.producer?.toList ++ producers rest := by
  rw [producers, List.filterMap_cons]
  cases layer.producer? <;> rfl

theorem Assigns.logged {thunk : FieldThunk F M} {assigned : List (String × FieldSpec)}
    (h : Assigns run thunk s assigned s') (log : List (F ⊕ M)) :
    Assigns run.logged thunk (s, log) assigned (s', log ++ thunk.producers) := by
  induction h generalizing log with
  | nil s =>
    rw [FieldThunk.producers, List.filterMap_nil, List.append_nil]
    exact .nil _
  | cons hfirst _ ih =>
    rw [FieldThunk.producers_cons, ← List.append_assoc]
    refine .cons ?_ (ih _)
    rw [FieldLayer.assignments_logged, hfirst]

/-! ### Evaluations at a workbench -/

namespace Workbench

/-- The workbench after steps. -/
def after (b : Workbench) (steps : List Step) : Workbench :=
  steps.foldl (fun b step ↦ (b.take step).2.settle) b

/-- The answers to steps are given one list after the other. -/
theorem takeAll_append (b : Workbench) (first rest : List Step) :
    b.takeAll (first ++ rest) = b.takeAll first ++ (b.after first).takeAll rest := by
  induction first generalizing b with
  | nil => rfl
  | cons step first ih => exact congrArg _ (ih _)

theorem onDesk_thunks {α : Type} (b : Workbench) (act : Desk → Except BuildError α × Desk)
    {answer : Workbench → α → Answer} :
    (b.onDesk act fun b value ↦ (answer b value, b)).2.thunks = b.thunks := by
  rw [onDesk]
  rcases act b.desk with ⟨_ | _, _⟩ <;> rfl

theorem evaluate_thunks (b : Workbench) (name : String) :
    (b.take (.evaluate name)).2.thunks = b.thunks := by
  change (b.withThunk name _).2.thunks = b.thunks
  rw [withThunk]
  cases b.thunks.lookup? name with
  | none => rfl
  | some layers => exact onDesk_thunks ..

theorem after_evaluations_thunks (b : Workbench) (names : List String) :
    (b.after (names.map .evaluate)).thunks = b.thunks := by
  induction names generalizing b with
  | nil => rfl
  | cons name names ih =>
    have hfirst : (b.take (.evaluate name)).2.settle.thunks = b.thunks := evaluate_thunks b name
    exact (ih _).trans hfirst

end Workbench

/-- What recorded fields yield. Whatever calls recorded them, and whatever the producers read and
change, an evaluation runs the producers in the order of the calls. When it succeeds, each of them
was run once, the names are those that were assigned, in the order of their first assignments, and
each has what was assigned to it last. When it fails, the error is that of a producer, those of the
calls before it were run once each, then it was run, and none after it. At a workbench, whatever is
done after evaluations finds the recorded fields as they were before them. -/
theorem evaluate_recorded (run : Runner F M σ) (calls : List (FieldLayer F M)) (s : σ)
    (log : List (F ⊕ M)) :
    (∃ result s' ran,
      (calls.foldl FieldThunk.record []).evaluate run s = (result, s') ∧
      (calls.foldl FieldThunk.record []).evaluate run.logged (s, log) = (result, s', log ++ ran) ∧
      match result with
      | .ok fields => ran = FieldThunk.producers calls ∧
          ∃ assigned, Assigns run calls s assigned s' ∧
          fields.keys = (assigned.map Prod.fst).eraseDups ∧ fields.keys.Nodup ∧
          ∀ name, fields.lookup? name = assigned.reverse.lookup name
      | .error e => ∃ before layer after assigned s₁ producer, calls = before ++ layer :: after ∧
          Assigns run before s assigned s₁ ∧ layer.assignments run s₁ = (.error e, s') ∧
          layer.producer? = some producer ∧ ran = FieldThunk.producers before ++ [producer]) ∧
    ∀ (b : Workbench) (names : List String) (later : List Workbench.Step),
      (b.after (names.map .evaluate)).thunks = b.thunks ∧
      b.takeAll (names.map .evaluate ++ later) =
        b.takeAll (names.map .evaluate) ++ (b.after (names.map .evaluate)).takeAll later := by
  refine ⟨?_, fun b names later ↦
    ⟨b.after_evaluations_thunks names, b.takeAll_append (names.map .evaluate) later⟩⟩
  rw [FieldThunk.foldl_record, List.nil_append]
  unfold FieldThunk.evaluate
  rcases FieldThunk.assigns_or_fails run calls s with ⟨assigned, s', hcalls⟩ |
    ⟨before, layer, after, assigned, s₁, e, s', rfl, hbefore, hlayer⟩
  · refine ⟨.ok (.ofList assigned), s', FieldThunk.producers calls,
      FieldThunk.evaluateOnto_of_assigns hcalls ∅,
      FieldThunk.evaluateOnto_of_assigns (hcalls.logged log) ∅, rfl, assigned, hcalls,
      OrderedMap.keys_insertAll ∅ assigned, OrderedMap.nodup_keys _, fun name ↦ ?_⟩
    exact (OrderedMap.lookup?_insertAll ∅ assigned name).trans (Option.or_none ..)
  · obtain ⟨producer, hproducer⟩ := FieldLayer.exists_producer_of_error hlayer
    have hlogged : layer.assignments run.logged (s₁, log ++ FieldThunk.producers before) =
        (.error e, s', log ++ (FieldThunk.producers before ++ [producer])) := by
      rw [FieldLayer.assignments_logged, hlayer, hproducer, List.append_assoc]
      rfl
    exact ⟨.error e, s', FieldThunk.producers before ++ [producer],
      FieldThunk.evaluateOnto_of_failure hbefore hlayer ∅,
      FieldThunk.evaluateOnto_of_failure (hbefore.logged log) hlogged ∅,
      before, layer, after, assigned, s₁, producer, rfl, hbefore, hlayer, hproducer, rfl⟩

end DocumentTypes
