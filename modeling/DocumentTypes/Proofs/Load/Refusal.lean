import DocumentTypes.Proofs.Load.Materialized

/-!
When the schemas of a document are refused. An error names a part of the document that breaks the
rule for embeddings (`materialize_error`, `materializeAll_error`). The names whose fields are being
resolved form a chain in which each embeds the next, so one that is met again closes a cycle, and
the part of the chain from there on is the path of the error (`refutes_of_met_again`).
-/

set_option autoImplicit false

namespace DocumentTypes

section Resolve

variable {schemas : DeclaredSchemas} {owner : String}
  {embed : String → Materialized → Except LoadError (SchemaId × Materialized)}
  {m : Materialized} {e : LoadError}

theorem embedTarget_eq_error {field schema : String}
    (h : embedTarget schemas owner field embed schema m = .error e) :
    schema ≠ owner ∧
      ((schema ∉ schemas.keys ∧ e = .unknownSchema schema (.field owner field)) ∨
        (schema ∈ schemas.keys ∧ embed schema m = .error e)) := by
  unfold embedTarget at h
  split at h
  · exact absurd h (by simp)
  · next hother =>
    refine ⟨hother, ?_⟩
    split at h
    · next hknown =>
      split at h
      · next hembed =>
        obtain rfl := Except.error.inj h
        exact Or.inr ⟨by simpa [OrderedMap.contains] using hknown, hembed⟩
      · exact absurd h (by simp)
    · next hunknown =>
      obtain rfl := Except.error.inj h
      exact Or.inl ⟨by simpa [OrderedMap.contains] using hunknown, rfl⟩

/-- A field that declares a descriptor fails only with a schema that it embeds. -/
theorem resolveField_eq_error {field : String} {declared : FieldDef}
    (h : resolveField schemas owner field embed declared m = .error e)
    (hdescriptor : ∃ d, declared.descriptor? = some d) :
    ∃ schema isArray, declared.descriptor? = some ⟨.embedded schema, isArray⟩ ∧
      embedTarget schemas owner field embed schema m = .error e := by
  obtain ⟨d, hd⟩ := hdescriptor
  unfold resolveField at h
  rw [hd] at h
  obtain ⟨element, isArray⟩ := d
  cases element with
  | primitive kind => exact absurd h (by simp)
  | reference typeName => exact absurd h (by simp)
  | embedded schema =>
    refine ⟨schema, isArray, hd, ?_⟩
    simp only at h
    split at h
    · next e' hfailed =>
      obtain rfl := Except.error.inj h
      exact hfailed
    · exact absurd h (by simp)

/-- Fields that fail, fail with one of them. -/
theorem resolveFields_eq_error {fields : List (String × FieldDef)}
    (h : resolveFields schemas owner embed fields m = .error e) :
    ∃ field declared m₁, (field, declared) ∈ fields ∧
      resolveField schemas owner field embed declared m₁ = .error e := by
  induction fields generalizing m with
  | nil => exact absurd h (by simp [resolveFields])
  | cons entry rest ih =>
    obtain ⟨field, declared⟩ := entry
    unfold resolveFields at h
    split at h
    · next e' hfailed =>
      obtain rfl := Except.error.inj h
      exact ⟨field, declared, m, List.mem_cons_self, hfailed⟩
    · next descriptor m₁ hfield =>
      split at h
      · next e' hfailed =>
        obtain rfl := Except.error.inj h
        obtain ⟨field', declared', m₂, hmem, hfailed'⟩ := ih hfailed
        exact ⟨field', declared', m₂, List.mem_cons_of_mem _ hmem, hfailed'⟩
      · exact absurd h (by simp)

end Resolve

section Materialize

variable {schemas : DeclaredSchemas} {m : Materialized} {e : LoadError}

theorem materialize_eq_error {stack : List String} {name : String}
    (h : materialize schemas stack name m = .error e) :
    (name ∈ stack ∧ e = .embeddingCycle (stack.dropWhile (fun n ↦ n ≠ name) ++ [name])) ∨
      name ∉ stack ∧
        ((schemas.lookup? name = none ∧ e = .unknownSchema name .document) ∨
          ∃ fields, schemas.lookup? name = some fields ∧
            resolveFields schemas name (materialize schemas (stack ++ [name])) fields.entries m =
              .error e) := by
  rw [materialize] at h
  split at h
  · exact absurd h (by simp)
  · split at h
    · next hstack => exact Or.inl ⟨hstack, (Except.error.inj h).symm⟩
    · next hstack =>
      refine Or.inr ⟨hstack, ?_⟩
      split at h
      · next hunknown => exact Or.inl ⟨hunknown, (Except.error.inj h).symm⟩
      · next fields hfields =>
        simp only at h
        split at h
        · next e' hfailed =>
          obtain rfl := Except.error.inj h
          exact Or.inr ⟨fields, hfields, hfailed⟩
        · exact absurd h (by simp)

theorem exists_dropWhile_eq {stack : List String} {name : String} (h : name ∈ stack) :
    ∃ rest, stack.dropWhile (fun n ↦ n ≠ name) = name :: rest := by
  induction stack with
  | nil => exact absurd h (by simp)
  | cons first stack ih =>
    by_cases hfirst : first = name
    · subst hfirst
      exact ⟨stack, by simp⟩
    · obtain ⟨rest, hrest⟩ := ih (List.mem_of_ne_of_mem (Ne.symm hfirst) h)
      exact ⟨rest, by simpa [List.dropWhile_cons, hfirst] using hrest⟩

/-- A chain of embeddings that meets one of its names again closes a cycle there. No name leads to
itself, so there is another name between the two ends. -/
theorem refutes_of_met_again {E : Embedding} {names stack : List String} {name : String}
    (hstack : stack.Nodup) (hchain : (stack ++ [name]).IsChain E.Leads) (hmem : name ∈ stack) :
    E.Refutes names (.embeddingCycle (stack.dropWhile (fun n ↦ n ≠ name) ++ [name])) := by
  obtain ⟨rest, hrest⟩ := exists_dropWhile_eq hmem
  have hsuffix : name :: rest <:+ stack := hrest ▸ List.dropWhile_suffix _
  have hclosing : (name :: rest ++ [name]).IsChain E.Leads := by
    obtain ⟨front, hfront⟩ := hsuffix
    refine hchain.suffix ⟨front, ?_⟩
    rw [← hfront, List.append_assoc]
  have hnodup : (name :: rest).Nodup := hstack.sublist hsuffix.sublist
  rw [hrest]
  cases rest with
  | nil => exact absurd rfl (List.isChain_pair.mp hclosing).1
  | cons next rest =>
    refine .embeddingCycle (by simp) List.getLast?_concat.symm ?_ hclosing
    obtain ⟨hnew, hothers⟩ := List.nodup_cons.mp hnodup
    show (next :: rest ++ [name]).Nodup
    rw [List.nodup_append]
    refine ⟨hothers, by simp, fun a ha b hb hab ↦ ?_⟩
    exact hnew (List.mem_singleton.mp hb ▸ hab ▸ ha)

/-- Every field declares a descriptor. -/
def DeclaredSchemas.Readable (schemas : DeclaredSchemas) : Prop :=
  ∀ owner field fields declared, schemas.lookup? owner = some fields →
    fields.lookup? field = some declared → ∃ d, declared.descriptor? = some d

theorem materialize_error (hreadable : schemas.Readable) (stack : List String) (name : String)
    (hname : name ∈ schemas.keys) (hstack : stack.Nodup)
    (hchain : (stack ++ [name]).IsChain schemas.embedding.Leads)
    (h : materialize schemas stack name m = .error e) :
    schemas.embedding.Refutes schemas.keys e := by
  induction stack, name using materialize_induction schemas generalizing m with
  | step stack name ih =>
    rcases materialize_eq_error h with ⟨hmem, rfl⟩ |
      ⟨hnew, ⟨hunknown, -⟩ | ⟨fields, hfields, hfailed⟩⟩
    · exact refutes_of_met_again hstack hchain hmem
    · exact absurd hname (OrderedMap.lookup?_eq_none_iff.mp hunknown)
    · obtain ⟨field, declared, m₁, hmem, hfield⟩ := resolveFields_eq_error hfailed
      have hdeclared := OrderedMap.mem_entries_iff.mp hmem
      obtain ⟨schema, isArray, hd, htarget⟩ :=
        resolveField_eq_error hfield (hreadable name field fields declared hfields hdeclared)
      have hembeds : schemas.embedding name field schema :=
        ⟨fields, declared, isArray, hfields, hdeclared, hd⟩
      obtain ⟨hother, ⟨hunknown, rfl⟩ | ⟨hknown, hfailed'⟩⟩ := embedTarget_eq_error htarget
      · exact .unknownSchema hembeds hunknown
      · refine ih schema hname hnew hknown ?_ ?_ hfailed'
        · rw [List.nodup_append]
          refine ⟨hstack, by simp, fun a ha b hb hab ↦ ?_⟩
          exact hnew (List.mem_singleton.mp hb ▸ hab ▸ ha)
        · refine List.isChain_append.mpr ⟨hchain, by simp, fun a ha b hb ↦ ?_⟩
          obtain rfl : name = a := by simpa using ha
          obtain rfl : schema = b := by simpa using hb
          exact ⟨hother, field, hembeds⟩

theorem materializeAll_error (hreadable : schemas.Readable) {names : List String}
    (hnames : names ⊆ schemas.keys) (h : materializeAll schemas names m = .error e) :
    schemas.embedding.Refutes schemas.keys e := by
  induction names generalizing m with
  | nil => exact absurd h (by simp [materializeAll])
  | cons name rest ih =>
    unfold materializeAll at h
    obtain ⟨hname, hrest⟩ := List.cons_subset.mp hnames
    split at h
    · next e' hfailed =>
      obtain rfl := Except.error.inj h
      exact materialize_error hreadable [] name hname List.nodup_nil (by simp) hfailed
    · exact ih hrest h

end Materialize

end DocumentTypes
