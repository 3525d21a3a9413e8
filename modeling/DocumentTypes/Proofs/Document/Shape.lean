import DocumentTypes.Document.Shape
import Mathlib.Data.List.Basic

/-!
What the shapes of JSON values say. A value has no violations of a shape exactly when it has the
shape (`Shape.violations_eq_nil_iff`), wherever in a document it stands. A value that has a shape is
of the type that the shape is about, and its parts have the shapes of the parts.
-/

set_option autoImplicit false

namespace DocumentTypes.Shape

mutual

/-- A value has no violations exactly when it has the shape. -/
theorem violations_eq_nil_iff (shape : Shape) (path : Json.Pointer) (value : Json) :
    shape.violations path value = [] ↔ shape.accepts value = true := by
  cases shape with
  | text isNonempty =>
    cases value <;> cases isNonempty <;> simp [violations, accepts, typeViolation]
  | list items isSingle =>
    cases value with
    | array values =>
      have hitems : (∀ item ∈ values.zipIdx,
            items.violations (path ++ [.item item.2]) item.1 = []) ↔
          ∀ item ∈ values, items.accepts item = true := by
        simp only [violations_eq_nil_iff items]
        rw [← List.forall_mem_map (f := Prod.fst) (P := fun item ↦ items.accepts item = true),
          List.zipIdx_map_fst]
      rw [violations, accepts]
      simp only [List.append_eq_nil_iff, List.flatMap_eq_nil_iff, hitems, Bool.and_eq_true,
        List.all_eq_true, and_assoc]
      cases isSingle <;> cases values <;> simp [Nat.pos_iff_ne_zero]
    | _ => simp [violations, accepts, typeViolation]
  | record members required =>
    cases value with
    | object entries =>
      have hmembers : ((∀ entry ∈ entries, memberViolations members path entry.1 entry.2 = []) ∧
            ∀ entry ∈ entries, entry.1 ∈ members.map Prod.fst) ↔
          ∀ entry ∈ entries, acceptsMember members entry.1 entry.2 = true := by
        simp only [← memberViolations_eq_nil_iff members path]
        exact ⟨fun h entry hentry ↦ ⟨h.2 entry hentry, h.1 entry hentry⟩,
          fun h ↦ ⟨fun entry hentry ↦ (h entry hentry).2, fun entry hentry ↦ (h entry hentry).1⟩⟩
      rw [accepts, Bool.and_eq_true, List.all_eq_true (l := entries), ← hmembers]
      simp [violations]
    | _ => simp [violations, accepts, typeViolation]
  | dictionary values =>
    cases value with
    | object entries =>
      simp only [violations, accepts, List.flatMap_eq_nil_iff, List.all_eq_true,
        violations_eq_nil_iff values]
    | _ => simp [violations, accepts, typeViolation]
  | oneOf alternatives =>
    rw [violations, accepts, decide_eq_true_iff]
    split
    · next hcount => simp [hcount]
    · next hcount => simp [hcount]
    · next hother => simpa using hother
  | named name shape =>
    rw [violations, accepts]
    exact violations_eq_nil_iff shape path value

theorem memberViolations_eq_nil_iff (members : List (String × Shape)) (path : Json.Pointer)
    (name : String) (value : Json) :
    name ∈ members.map Prod.fst ∧ memberViolations members path name value = [] ↔
      acceptsMember members name value = true := by
  cases members with
  | nil => simp [acceptsMember]
  | cons member rest =>
    obtain ⟨known, shape⟩ := member
    by_cases hknown : known = name
    · simp [memberViolations, acceptsMember, hknown, violations_eq_nil_iff shape]
    · rw [memberViolations, acceptsMember, if_neg hknown, if_neg hknown,
        ← memberViolations_eq_nil_iff rest path name value]
      simp [Ne.symm hknown]

end

section Parts

variable {value : Json}

theorem accepts_text_iff {isNonempty : Bool} :
    (text isNonempty).accepts value = true ↔
      ∃ s, value = .string s ∧ (isNonempty = true → s ≠ "") := by
  cases value with
  | string s => cases isNonempty <;> simp [accepts]
  | _ => simp [accepts]

theorem accepts_text {isNonempty : Bool} (h : (text isNonempty).accepts value = true) :
    ∃ s, value = .string s := by
  obtain ⟨s, hs, -⟩ := accepts_text_iff.mp h
  exact ⟨s, hs⟩

theorem accepts_list_iff {items : Shape} {isSingle : Bool} :
    (list items isSingle).accepts value = true ↔
      ∃ values, value = .array values ∧ (∀ item ∈ values, items.accepts item = true) ∧
        (isSingle = true → values.length = 1) := by
  cases value with
  | array values => cases isSingle <;> simp [accepts]
  | _ => simp [accepts]

theorem accepts_dictionary_iff {values : Shape} :
    (dictionary values).accepts value = true ↔
      ∃ entries, value = .object entries ∧ ∀ entry ∈ entries, values.accepts entry.2 = true := by
  cases value with
  | object entries => simp [accepts]
  | _ => simp [accepts]

theorem accepts_record_iff {members : List (String × Shape)} {required : List String} :
    (record members required).accepts value = true ↔
      ∃ entries, value = .object entries ∧
        (∀ name ∈ required, name ∈ entries.map Prod.fst) ∧
        ∀ entry ∈ entries, acceptsMember members entry.1 entry.2 = true := by
  cases value with
  | object entries => simp [accepts]
  | _ => simp [accepts]

theorem lookup_of_acceptsMember {members : List (String × Shape)} {name : String}
    (h : acceptsMember members name value = true) :
    ∃ shape, members.lookup name = some shape ∧ shape.accepts value = true := by
  induction members with
  | nil => exact absurd h (by simp [acceptsMember])
  | cons member rest ih =>
    obtain ⟨known, shape⟩ := member
    by_cases hname : known = name
    · subst hname
      rw [acceptsMember, if_pos rfl] at h
      exact ⟨shape, List.lookup_cons_self, h⟩
    · have hbeq : (name == known) = false := by simpa using Ne.symm hname
      rw [acceptsMember, if_neg hname] at h
      rw [List.lookup_cons, hbeq]
      exact ih h

/-- Where the known names are different, a member is accepted when it has the shape that is known
for its name. -/
theorem acceptsMember_iff {members : List (String × Shape)} {name : String}
    (hnodup : (members.map Prod.fst).Nodup) :
    acceptsMember members name value = true ↔
      ∃ shape, (name, shape) ∈ members ∧ shape.accepts value = true := by
  induction members with
  | nil => simp [acceptsMember]
  | cons member rest ih =>
    obtain ⟨known, shape⟩ := member
    obtain ⟨hnew, hrest⟩ := List.nodup_cons.mp hnodup
    by_cases hname : known = name
    · subst hname
      have hothers : ∀ other, (known, other) ∉ rest := fun other hmem ↦
        hnew (List.mem_map.mpr ⟨_, hmem, rfl⟩)
      simp [acceptsMember, hothers]
    · rw [acceptsMember, if_neg hname, ih hrest]
      simp [Ne.symm hname]

/-- An object with the shape of a record has the required members, and all its members are known and
have their shapes. -/
theorem accepts_record {members : List (String × Shape)} {required : List String}
    (h : (record members required).accepts value = true) :
    ∃ entries, value = .object entries ∧
      (∀ name ∈ required, ∃ member, entries.lookup name = some member) ∧
      ∀ name member, entries.lookup name = some member →
        ∃ shape, members.lookup name = some shape ∧ shape.accepts member = true := by
  obtain ⟨entries, rfl, hrequired, hknown⟩ := accepts_record_iff.mp h
  refine ⟨entries, rfl, fun name hname ↦ ?_, fun name member hmember ↦ ?_⟩
  · rw [← Option.isSome_iff_exists, List.lookup_isSome_iff]
    obtain ⟨entry, hentry, hkey⟩ := List.mem_map.mp (hrequired name hname)
    exact ⟨entry, hentry, by simp [hkey]⟩
  · obtain ⟨before, after, rfl, -⟩ := List.lookup_eq_some_iff.mp hmember
    exact lookup_of_acceptsMember (hknown _ List.mem_append_cons_self)

theorem exists_of_acceptCount_ne_zero {alternatives : List Shape}
    (h : acceptCount alternatives value ≠ 0) :
    ∃ shape ∈ alternatives, shape.accepts value = true := by
  induction alternatives with
  | nil => exact absurd rfl h
  | cons shape rest ih =>
    by_cases hshape : shape.accepts value = true
    · exact ⟨shape, List.mem_cons_self, hshape⟩
    · rw [acceptCount, if_neg hshape, Nat.zero_add] at h
      obtain ⟨other, hother, haccepts⟩ := ih h
      exact ⟨other, List.mem_cons_of_mem _ hother, haccepts⟩

theorem accepts_oneOf {alternatives : List Shape} (h : (oneOf alternatives).accepts value = true) :
    ∃ shape ∈ alternatives, shape.accepts value = true := by
  rw [accepts, decide_eq_true_iff] at h
  exact exists_of_acceptCount_ne_zero (by rw [h]; exact Nat.one_ne_zero)

theorem acceptCount_eq_zero {alternatives : List Shape}
    (h : ∀ shape ∈ alternatives, ¬ shape.accepts value = true) :
    acceptCount alternatives value = 0 := by
  by_contra hcount
  obtain ⟨shape, hshape, haccepts⟩ := exists_of_acceptCount_ne_zero hcount
  exact h shape hshape haccepts

/-- Of alternatives that exclude each other, a value has exactly one when it has any. -/
theorem accepts_oneOf_iff {alternatives : List Shape}
    (hexclusive : alternatives.Pairwise fun shape other ↦
      shape.accepts value = true → ¬ other.accepts value = true) :
    (oneOf alternatives).accepts value = true ↔
      ∃ shape ∈ alternatives, shape.accepts value = true := by
  refine ⟨accepts_oneOf, fun h ↦ ?_⟩
  rw [accepts, decide_eq_true_iff]
  induction hexclusive with
  | nil => exact absurd h (by simp)
  | @cons shape rest hothers _ ih =>
    by_cases hshape : shape.accepts value = true
    · rw [acceptCount, if_pos hshape,
        acceptCount_eq_zero fun other hmem ↦ hothers other hmem hshape]
    · rw [acceptCount, if_neg hshape, Nat.zero_add]
      obtain ⟨other, hother, haccepts⟩ := h
      rcases List.mem_cons.mp hother with rfl | hrest
      · exact absurd haccepts hshape
      · exact ih ⟨other, hrest, haccepts⟩

end Parts

end DocumentTypes.Shape
