import DocumentTypes.Json.Reader
import DocumentTypes.Proofs.Json.Pointer

/-!
Values that are read name no member of an object twice, at any depth: a repeated member takes the
place of the one before it. Readers are followed as they call each other, with what is left of the
text as the measure.
-/

set_option autoImplicit false

namespace DocumentTypes.Json

/-- A literal reads as its value. -/
theorem eq_of_readLiteral {value value' : Json} {expected cs : List Char} {r : Tail cs}
    (h : readLiteral value expected cs = .ok (value', r)) : value' = value := by
  induction expected generalizing cs with
  | nil =>
    rw [readLiteral] at h
    exact (Prod.mk.inj (Except.ok.inj h)).1.symm
  | cons e expected ih =>
    cases cs with
    | nil => cases h
    | cons c cs =>
      rw [readLiteral] at h
      split_ifs at h
      · split at h
        · cases h
        · next read rest hread =>
          cases h
          exact ih hread
      · cases h

theorem hasDistinctNames_of_parts_eq_nil {value : Json} (h : value.parts = []) :
    value.HasDistinctNames := by
  refine .intro ?_ ?_
  · rw [h]
    exact List.nodup_nil
  · rw [h]
    exact List.forall_mem_nil _

theorem hasDistinctNames_array {items : List Json} (h : ∀ item ∈ items, item.HasDistinctNames) :
    (array items).HasDistinctNames := by
  refine .intro (nodup_itemTokens items) fun part hpart ↦ ?_
  obtain ⟨⟨item, index⟩, hitem, rfl⟩ := List.mem_map.mp hpart
  exact h item (List.fst_mem_of_mem_zipIdx hitem)

theorem hasDistinctNames_setEntry {key : String} {value : Json} {members : List (String × Json)}
    (hvalue : value.HasDistinctNames) (h : ∀ member ∈ members, member.2.HasDistinctNames) :
    ∀ member ∈ OrderedMap.setEntry key value members, member.2.HasDistinctNames := by
  induction members with
  | nil => simpa [OrderedMap.setEntry] using hvalue
  | cons member rest ih =>
    obtain ⟨hmember, hrest⟩ := List.forall_mem_cons.mp h
    rw [OrderedMap.setEntry]
    split_ifs
    · exact List.forall_mem_cons.mpr ⟨hvalue, hrest⟩
    · exact List.forall_mem_cons.mpr ⟨hmember, ih hrest⟩

mutual

theorem hasDistinctNames_of_readValue {depth : Nat} {cs : List Char} {value : Json} {r : Rest cs}
    (h : readValue depth cs = .ok (value, r)) : value.HasDistinctNames := by
  rw [readValue] at h
  split at h
  · cases h
  · next c rest hlt hskip =>
    dsimp only at h
    split_ifs at h
    iterate 3
      · split at h
        · cases h
        · next literal r₁ hliteral =>
          cases h
          rw [id, eq_of_readLiteral hliteral]
          exact hasDistinctNames_of_parts_eq_nil rfl
    iterate 3
      · split at h
        · cases h
        · cases h
          exact hasDistinctNames_of_parts_eq_nil rfl
    · split at h
      · cases h
      · split at h
        · cases h
        · next items r₁ hitems =>
          cases h
          have hlt' : rest.length < cs.length := hlt
          exact hasDistinctNames_array (hasDistinctNames_of_readItems hitems)
    · split at h
      · cases h
      · split at h
        · cases h
        · next members r₁ hmembers =>
          cases h
          have hlt' : rest.length < cs.length := hlt
          obtain ⟨hnodup, hparts⟩ :=
            hasDistinctNames_of_readMembers hmembers List.nodup_nil (List.forall_mem_nil _)
          exact .intro hnodup hparts
    · cases h
termination_by 2 * cs.length
decreasing_by
  all_goals omega

theorem hasDistinctNames_of_readItems {depth : Nat} {isFirst : Bool} {cs : List Char}
    {items : List Json} {r : Rest cs} (h : readItems depth isFirst cs = .ok (items, r)) :
    ∀ item ∈ items, item.HasDistinctNames := by
  rw [readItems] at h
  split at h
  · cases h
  · next c rest hlt hskip =>
    split_ifs at h
    · cases h
      simp
    · split at h
      · cases h
      · next start hstart =>
        split at h
        · cases h
        · next item r₁ hitem =>
          split at h
          · cases h
          · next items r₂ hitems =>
            cases h
            have := start.2
            have := r₁.2
            exact List.forall_mem_cons.mpr
              ⟨hasDistinctNames_of_readValue hitem, hasDistinctNames_of_readItems hitems⟩
termination_by 2 * cs.length + 1
decreasing_by
  all_goals omega

theorem hasDistinctNames_of_readMembers {depth : Nat} {isFirst : Bool}
    {read members : List (String × Json)} {cs : List Char} {r : Rest cs}
    (h : readMembers depth isFirst read cs = .ok (members, r)) (hnodup : (read.map Prod.fst).Nodup)
    (hread : ∀ member ∈ read, member.2.HasDistinctNames) :
    (members.map Prod.fst).Nodup ∧ ∀ member ∈ members, member.2.HasDistinctNames := by
  rw [readMembers] at h
  split at h
  · cases h
  · next c rest hlt hskip =>
    split_ifs at h
    · cases h
      exact ⟨hnodup, hread⟩
    · split at h
      · cases h
      · next start hstart =>
        split at h
        · cases h
        · next key k hkey =>
          split at h
          · cases h
          · next value r₁ hvalue =>
            split at h
            · cases h
            · next members r₂ hmembers =>
              cases h
              have := start.2
              have := k.2
              have := r₁.2
              exact hasDistinctNames_of_readMembers hmembers
                (OrderedMap.nodup_map_fst_setEntry key value hnodup)
                (hasDistinctNames_setEntry (hasDistinctNames_of_readValue hvalue) hread)
termination_by 2 * cs.length + 1
decreasing_by
  all_goals omega

end

/-- No member is named twice in what a text reads as. -/
theorem hasDistinctNames_of_read {text : String} {value : Json} (h : read text = .ok value) :
    value.HasDistinctNames := by
  have hchars : readChars depthLimit text.toList = .ok value := by
    unfold read at h
    dsimp only at h
    split at h
    · next hread =>
      cases h
      exact hread
    · cases h
  unfold readChars at hchars
  split at hchars
  · cases hchars
  · next hread =>
    split at hchars
    · cases hchars
      exact hasDistinctNames_of_readValue hread
    · cases hchars

end DocumentTypes.Json
