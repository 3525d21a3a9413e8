import DocumentTypes.Definitions
import DocumentTypes.Proofs.Document.Grammar
import DocumentTypes.Proofs.Json.DistinctNames

/-!
Where the violations of a document are. The path of each leads to the part of the document that it
is about (`Shape.within_of_mem_violations`). What is at or below a member depends on that member
alone, whatever is wrong elsewhere (`Shape.atOrBelow_dictionary`, `Shape.atOrBelow_record`). So each
field of a schema has the violations of its own descriptor, which are none or a single one at the
field (`violations_located`).
-/

set_option autoImplicit false

namespace DocumentTypes

namespace Violation

variable {path : Json.Pointer} {value part : Json} {v : Violation}

/-- The violation is about a part of the value that is at `path` in a document. -/
def Within (path : Json.Pointer) (value : Json) (v : Violation) : Prop :=
  ∃ more part, v.path = path ++ more ∧
    (Json.Pointer.tokens more).foldlM Json.child? value = some part

theorem within_self (h : v.path = path) : v.Within path value :=
  ⟨[], value, h.trans (List.append_nil path).symm, rfl⟩

theorem Within.of_child {segment : Json.Segment} (h : v.Within (path ++ [segment]) part)
    (hchild : value.child? segment.token = some part) : v.Within path value := by
  obtain ⟨more, inner, hpath, hinner⟩ := h
  refine ⟨segment :: more, inner, by rw [hpath, List.append_assoc, List.singleton_append], ?_⟩
  rw [Json.Pointer.tokens, List.map_cons, List.foldlM_cons, hchild]
  exact hinner

theorem Within.isPrefix_tokens (h : v.Within path value) : path.tokens <+: v.path.tokens := by
  obtain ⟨more, -, hpath, -⟩ := h
  rw [hpath, Json.Pointer.tokens, Json.Pointer.tokens, List.map_append]
  exact List.prefix_append _ _

/-- The violations that are about what the tokens lead to, or about a part of it. -/
def atOrBelow (tokens : List String) (violations : List Violation) : List Violation :=
  violations.filter fun v ↦ tokens <+: v.path.tokens

end Violation

namespace Shape

open Violation

variable {value : Json} {v : Violation} {path : Json.Pointer}

/-! ### Every violation is in the document -/

mutual

/-- The path of a violation leads to a part of the value. -/
theorem within_of_mem_violations (shape : Shape) {path : Json.Pointer} {value : Json}
    (hdistinct : value.HasDistinctNames) (hv : v ∈ shape.violations path value) :
    v.Within path value := by
  cases shape with
  | text isNonempty =>
    refine within_self ?_
    cases value with
    | string s =>
      rw [violations] at hv
      split_ifs at hv with hshort
      · rw [List.mem_singleton.mp hv]
      · exact absurd hv List.not_mem_nil
    | _ => rw [List.mem_singleton.mp hv]
  | list items isSingle =>
    cases value with
    | array values =>
      rw [violations] at hv
      rcases List.mem_append.mp hv with hv | hv
      · rcases List.mem_append.mp hv with hv | hv
        · obtain ⟨⟨item, index⟩, hitem, hv⟩ := List.mem_flatMap.mp hv
          have hpart : (toString index, item) ∈ (Json.array values).parts :=
            List.mem_map_of_mem hitem
          exact (within_of_mem_violations items (hdistinct.of_mem hpart) hv).of_child
            (hdistinct.child?_eq hpart)
        · split_ifs at hv
          · exact within_self (by rw [List.mem_singleton.mp hv])
          · exact absurd hv List.not_mem_nil
      · split_ifs at hv
        · exact within_self (by rw [List.mem_singleton.mp hv])
        · exact absurd hv List.not_mem_nil
    | _ => exact within_self (by rw [List.mem_singleton.mp hv])
  | record members required =>
    cases value with
    | object entries =>
      rw [violations] at hv
      rcases List.mem_append.mp hv with hv | hv
      · rcases List.mem_append.mp hv with hv | hv
        · obtain ⟨name, -, rfl⟩ := List.mem_map.mp hv
          exact within_self rfl
        · obtain ⟨⟨name, member⟩, hentry, hv⟩ := List.mem_flatMap.mp hv
          exact (within_of_mem_memberViolations members (hdistinct.of_mem hentry) hv).of_child
            (hdistinct.child?_eq hentry)
      · split_ifs at hv
        · exact absurd hv List.not_mem_nil
        · exact within_self (by rw [List.mem_singleton.mp hv])
    | _ => exact within_self (by rw [List.mem_singleton.mp hv])
  | dictionary values =>
    cases value with
    | object entries =>
      rw [violations] at hv
      obtain ⟨⟨name, member⟩, hentry, hv⟩ := List.mem_flatMap.mp hv
      exact (within_of_mem_violations values (hdistinct.of_mem hentry) hv).of_child
        (hdistinct.child?_eq hentry)
    | _ => exact within_self (by rw [List.mem_singleton.mp hv])
  | oneOf alternatives =>
    refine within_self ?_
    rw [violations] at hv
    split at hv
    · rw [List.mem_singleton.mp hv]
    · exact absurd hv List.not_mem_nil
    · rw [List.mem_singleton.mp hv]
  | named name shape =>
    rw [violations] at hv
    exact within_of_mem_violations shape hdistinct hv

theorem within_of_mem_memberViolations (members : List (String × Shape)) {path : Json.Pointer}
    {name : String} {value : Json} (hdistinct : value.HasDistinctNames)
    (hv : v ∈ memberViolations members path name value) :
    v.Within (path ++ [.member name]) value := by
  cases members with
  | nil => exact absurd hv List.not_mem_nil
  | cons member rest =>
    obtain ⟨known, shape⟩ := member
    rw [memberViolations] at hv
    split_ifs at hv
    · exact within_of_mem_violations shape hdistinct hv
    · exact within_of_mem_memberViolations rest hdistinct hv

end

theorem atOrBelow_self (shape : Shape) (path : Json.Pointer) (hdistinct : value.HasDistinctNames) :
    atOrBelow path.tokens (shape.violations path value) = shape.violations path value :=
  List.filter_eq_self.mpr fun _ hv ↦
    decide_eq_true (within_of_mem_violations shape hdistinct hv).isPrefix_tokens

/-! ### What is at or below a member -/

theorem atOrBelow_append (tokens : List String) (first rest : List Violation) :
    atOrBelow tokens (first ++ rest) = atOrBelow tokens first ++ atOrBelow tokens rest :=
  List.filter_append ..

section Members

variable {entries : List (String × Json)} {name : String} {more : List String}

/-- What is told about the object itself is not below it. -/
theorem atOrBelow_of_path_eq {told : List Violation} (h : ∀ v ∈ told, v.path = path) :
    atOrBelow (path.tokens ++ name :: more) told = [] := by
  refine List.filter_eq_nil_iff.mpr fun v hv hbelow ↦ ?_
  have hlength := (of_decide_eq_true hbelow).length_le
  rw [h v hv, List.length_append, List.length_cons] at hlength
  omega

/-- What is told about other members is not at or below this one, as their names stand in its place
behind the tokens of the object. -/
theorem atOrBelow_flatMap (hnodup : (entries.map Prod.fst).Nodup) (hmem : (name, value) ∈ entries)
    {told : String × Json → List Violation}
    (htold : ∀ entry ∈ entries, ∀ v ∈ told entry,
      v.Within (path ++ [.member entry.1]) entry.2) :
    atOrBelow (path.tokens ++ name :: more) (entries.flatMap told) =
      atOrBelow (path.tokens ++ name :: more) (told (name, value)) := by
  have hother : ∀ entry ∈ entries, name ≠ entry.1 → ∀ v ∈ told entry,
      ¬ path.tokens ++ name :: more <+: v.path.tokens := by
    intro entry hentry hne v hv hbelow
    have hpath : Json.Pointer.tokens (path ++ [.member entry.1]) = path.tokens ++ [entry.1] :=
      List.map_append
    have hown := (htold entry hentry v hv).isPrefix_tokens
    rw [hpath] at hown
    have hname : path.tokens ++ [name] <+: v.path.tokens :=
      List.IsPrefix.trans ⟨more, by rw [List.append_assoc, List.singleton_append]⟩ hbelow
    have hsame := (List.prefix_of_prefix_length_le hname hown (by simp)).eq_of_length (by simp)
    exact hne (List.singleton_inj.mp (List.append_cancel_left hsame))
  have hnone (others : List (String × Json)) (hsub : others ⊆ entries)
      (hne : name ∉ others.map Prod.fst) :
      atOrBelow (path.tokens ++ name :: more) (others.flatMap told) = [] := by
    refine List.filter_eq_nil_iff.mpr fun v hv hbelow ↦ ?_
    obtain ⟨entry, hentry, hv⟩ := List.mem_flatMap.mp hv
    exact hother entry (hsub hentry) (fun h ↦ hne (h ▸ List.mem_map_of_mem hentry)) v hv
      (of_decide_eq_true hbelow)
  obtain ⟨before, after, rfl⟩ := List.append_of_mem hmem
  rw [List.map_append, List.map_cons, List.nodup_append, List.nodup_cons] at hnodup
  obtain ⟨-, ⟨hafter, -⟩, hbefore⟩ := hnodup
  rw [List.flatMap_append, List.flatMap_cons, atOrBelow_append, atOrBelow_append,
    hnone before (by simp) fun h ↦ hbefore _ h _ List.mem_cons_self rfl,
    hnone after (fun _ ↦ by simp +contextual) hafter, List.nil_append, List.append_nil]

theorem atOrBelow_dictionary {values : Shape} (path : Json.Pointer)
    (hdistinct : (Json.object entries).HasDistinctNames) (hmem : (name, value) ∈ entries) :
    atOrBelow (path.tokens ++ name :: more)
        ((dictionary values).violations path (.object entries)) =
      atOrBelow (path.tokens ++ name :: more)
        (values.violations (path ++ [.member name]) value) := by
  rw [violations]
  exact atOrBelow_flatMap hdistinct.nodup hmem fun entry hentry v hv ↦
    within_of_mem_violations values (hdistinct.of_mem hentry) hv

theorem memberViolations_of_lookup {members : List (String × Shape)} {shape : Shape}
    (h : members.lookup name = some shape) :
    memberViolations members path name value = shape.violations (path ++ [.member name]) value := by
  induction members with
  | nil => exact absurd h (by simp)
  | cons member rest ih =>
    obtain ⟨known, other⟩ := member
    rw [memberViolations]
    split_ifs with hname
    · subst hname
      rw [List.lookup_cons_self, Option.some.injEq] at h
      rw [h]
    · have hbeq : (name == known) = false := by simpa using Ne.symm hname
      rw [List.lookup_cons, hbeq] at h
      exact ih h

theorem atOrBelow_record {members : List (String × Shape)} {required : List String} {shape : Shape}
    (path : Json.Pointer) (hdistinct : (Json.object entries).HasDistinctNames)
    (hmem : (name, value) ∈ entries) (hshape : members.lookup name = some shape) :
    atOrBelow (path.tokens ++ name :: more)
        ((record members required).violations path (.object entries)) =
      atOrBelow (path.tokens ++ name :: more)
        (shape.violations (path ++ [.member name]) value) := by
  have hmembers : atOrBelow (path.tokens ++ name :: more)
        (entries.flatMap fun entry ↦ memberViolations members path entry.1 entry.2) =
      atOrBelow (path.tokens ++ name :: more) (memberViolations members path name value) :=
    atOrBelow_flatMap hdistinct.nodup hmem fun entry hentry v hv ↦
      within_of_mem_memberViolations members (hdistinct.of_mem hentry) hv
  have hmissing : ∀ v ∈ (required.filter fun known ↦ !(entries.map Prod.fst).contains known).map
      fun known ↦ (⟨path, .missingMember known⟩ : Violation), v.path = path := by
    intro v hv
    obtain ⟨_, -, rfl⟩ := List.mem_map.mp hv
    rfl
  rw [violations, atOrBelow_append, atOrBelow_append, hmembers, memberViolations_of_lookup hshape,
    atOrBelow_of_path_eq hmissing, List.nil_append]
  refine (congrArg _ (atOrBelow_of_path_eq fun v hv ↦ ?_)).trans (List.append_nil _)
  split_ifs at hv
  · exact absurd hv List.not_mem_nil
  · rw [List.mem_singleton.mp hv]

end Members

end Shape

namespace Grammar

open Violation

variable {value d : Json} {members schemas fields : List (String × Json)} {s f : String}

/-- A descriptor of none of the forms has a single violation, which says so. -/
theorem violations_field (path : Json.Pointer) (d : Json) :
    d.IsField ∧ field.violations path d = [] ∨
      ¬ d.IsField ∧ field.violations path d = [⟨path, .noAlternative d⟩] := by
  by_cases hfield : d.IsField
  · exact Or.inl ⟨hfield, (Shape.violations_eq_nil_iff ..).mpr (accepts_field_iff.mpr hfield)⟩
  · refine Or.inr ⟨hfield, ?_⟩
    have hcount : Shape.acceptCount
        [.named "element" element, .list (.named "element" element) true] d = 0 := by
      refine Shape.acceptCount_eq_zero fun shape hshape haccepts ↦ hfield ?_
      rw [← accepts_field_iff, accepts_field_iff_exists_form]
      rcases List.mem_pair.mp hshape with rfl | rfl
      · obtain ⟨form, -, hform⟩ :=
          accepts_element_iff_exists_form.mp (accepts_named_iff.mp haccepts)
        exact ⟨form, hform⟩
      · exact ⟨.array, haccepts⟩
    rw [field, Shape.violations, hcount]
    rfl

theorem of_mem_violations_field {path : Json.Pointer} {v : Violation}
    (hv : v ∈ field.violations path d) : ¬ d.IsField ∧ v.path = path := by
  rcases violations_field path d with ⟨-, hnone⟩ | ⟨hno, hsingle⟩
  · exact absurd (hnone ▸ hv) List.not_mem_nil
  · rw [hsingle, List.mem_singleton] at hv
    exact ⟨hno, by rw [hv]⟩

/-- The pointer of a field points to its descriptor. -/
theorem at?_field (hdistinct : (Json.object members).HasDistinctNames)
    (hschemas : ("schemas", .object schemas) ∈ members) (hfields : (s, .object fields) ∈ schemas)
    (hf : (f, d) ∈ fields) :
    (Json.object members).at? (Json.Pointer.text [.member "schemas", .member s, .member f]) =
      some d := by
  have hinSchemas : (Json.object schemas).HasDistinctNames := hdistinct.of_mem hschemas
  have hinFields : (Json.object fields).HasDistinctNames := hinSchemas.of_mem hfields
  rw [Json.at?_text]
  change ["schemas", s, f].foldlM Json.child? (Json.object members) = some d
  rw [hdistinct.foldlM_child?_cons hschemas, hinSchemas.foldlM_child?_cons hfields,
    hinFields.foldlM_child?_cons hf]
  rfl

/-- What is told about a field, and about the inside of it, is what its descriptor violates. -/
theorem atOrBelow_field (hdistinct : (Json.object members).HasDistinctNames)
    (hschemas : ("schemas", .object schemas) ∈ members) (hfields : (s, .object fields) ∈ schemas)
    (hf : (f, d) ∈ fields) :
    atOrBelow ["schemas", s, f] (violations (.object members)) =
      field.violations [.member "schemas", .member s, .member f] d := by
  have hinSchemas : (Json.object schemas).HasDistinctNames := hdistinct.of_mem hschemas
  have hinFields : (Json.object fields).HasDistinctNames := hinSchemas.of_mem hfields
  have hinField : d.HasDistinctNames := hinFields.of_mem hf
  calc atOrBelow ["schemas", s, f] (violations (.object members))
      = atOrBelow ["schemas", s, f] (Shape.violations
          (.dictionary (.dictionary (.named "field" field))) [.member "schemas"]
          (.object schemas)) :=
        Shape.atOrBelow_record [] hdistinct hschemas rfl
    _ = atOrBelow ["schemas", s, f] (Shape.violations (.dictionary (.named "field" field))
          [.member "schemas", .member s] (.object fields)) :=
        Shape.atOrBelow_dictionary [.member "schemas"] hinSchemas hfields
    _ = atOrBelow ["schemas", s, f] (Shape.violations (.named "field" field)
          [.member "schemas", .member s, .member f] d) :=
        Shape.atOrBelow_dictionary [.member "schemas", .member s] hinFields hf
    _ = Shape.violations (.named "field" field) [.member "schemas", .member s, .member f] d :=
        Shape.atOrBelow_self _ [.member "schemas", .member s, .member f] hinField
    _ = field.violations [.member "schemas", .member s, .member f] d := by
        rw [Shape.violations]

/-- A violation with the pointer of a path is at or below it. -/
theorem filter_text_eq (path : Json.Pointer) (told : List Violation) :
    (told.filter fun v ↦ v.path.text = path.text) =
      (atOrBelow path.tokens told).filter fun v ↦ v.path.text = path.text := by
  rw [atOrBelow, List.filter_filter]
  refine List.filter_congr fun v _ ↦ ?_
  by_cases htext : v.path.text = path.text
  · simp [htext, Json.Pointer.text_eq_iff.mp htext]
  · simp [htext]

/-- Violations are complete and located, in values that name no member of an object twice; what is
read never does (`Json.hasDistinctNames_of_read`). A value that is no document is refused with at
least one violation, and the pointer of each violation points to a part of the value. Whatever else
is wrong, a field with a descriptor of none of the forms has exactly one violation with the pointer
of the field and none with a pointer below that, and any other field has none at or below its
pointer. -/
theorem violations_located {value : Json} (hdistinct : value.HasDistinctNames)
    (heap : SchemaHeap) :
    (¬ value.IsDocument → violations value ≠ [] ∧
      Definitions.ofJson heap value = .error (.invalidDocument (violations value))) ∧
    (∀ v ∈ violations value, ∃ part, value.at? v.path.text = some part) ∧
    ∀ members schemas s fields f d, value = .object members →
      ("schemas", .object schemas) ∈ members → (s, .object fields) ∈ schemas → (f, d) ∈ fields →
      ∃ pointer, pointer = Json.Pointer.text [.member "schemas", .member s, .member f] ∧
        value.at? pointer = some d ∧
        (¬ d.IsField → ((violations value).filter fun v ↦ v.path.text = pointer).length = 1) ∧
        (d.IsField → ∀ v ∈ violations value, v.path.text ≠ pointer) ∧
        ∀ v ∈ violations value, ¬ (pointer ++ "/").toList <+: v.path.text.toList := by
  refine ⟨fun hnone ↦ ?_, fun v hv ↦ ?_, ?_⟩
  · have hne : violations value ≠ [] := fun h ↦
      hnone (accepts_document_iff.mp ((Shape.violations_eq_nil_iff ..).mp h))
    refine ⟨hne, ?_⟩
    unfold Definitions.ofJson
    split
    · next h => exact absurd h hne
    · rfl
  · obtain ⟨more, part, hpath, hpart⟩ := Shape.within_of_mem_violations document hdistinct hv
    rw [List.nil_append] at hpath
    exact ⟨part, by rw [hpath, Json.at?_text, hpart]⟩
  · rintro members schemas s fields f d rfl hschemas hfields hf
    have hbelow := atOrBelow_field hdistinct hschemas hfields hf
    have hmem : ∀ v ∈ violations (.object members), ["schemas", s, f] <+: v.path.tokens →
        v ∈ field.violations [.member "schemas", .member s, .member f] d := fun v hv hprefix ↦
      hbelow ▸ List.mem_filter.mpr ⟨hv, decide_eq_true hprefix⟩
    refine ⟨_, rfl, at?_field hdistinct hschemas hfields hf, fun hno ↦ ?_,
      fun hfield v hv htext ↦ ?_, fun v hv hinside ↦ ?_⟩
    · rcases violations_field [.member "schemas", .member s, .member f] d with
        ⟨hfield, -⟩ | ⟨-, hsingle⟩
      · exact absurd hfield hno
      · rw [filter_text_eq, show Json.Pointer.tokens _ = ["schemas", s, f] from rfl, hbelow,
          hsingle]
        simp
    · have hv := hmem v hv (by rw [Json.Pointer.text_eq_iff.mp htext]; exact List.prefix_rfl)
      exact (of_mem_violations_field hv).1 hfield
    · obtain ⟨token, more, htokens⟩ := Json.Pointer.exists_tokens_of_below hinside
      have hv := hmem v hv (htokens ▸ List.prefix_append _ _)
      rw [(of_mem_violations_field hv).2] at htokens
      exact absurd (congrArg List.length htokens) (by simp)

/-- A document with an empty list for a field, with no fields for a schema, and with a member that
is not known. The names have marks that pointers escape. -/
def crowdedText : String :=
  "\x7b\"schemas\":\x7b\"a/b\":\x7b\"~x\":[],\"ok\":\"String\"\x7d,\"c\":null\x7d," ++
    "\"other\":\"\"\x7d"

def crowdedDocument : Json :=
  .object [("schemas", .object
      [("a/b", .object [("~x", .array []), ("ok", .string "String")]), ("c", .null)]),
    ("other", .string "")]

/-- All three are told about, the field once. Its neighbour has no violations. -/
theorem violations_located_crowded :
    Json.read crowdedText = .ok crowdedDocument ∧ crowdedDocument.HasDistinctNames ∧
      ¬ crowdedDocument.IsDocument ∧ violations crowdedDocument ≠ [] ∧
      ((violations crowdedDocument).map fun v ↦ v.path.text) =
        ["/schemas/a~1b/~0x", "/schemas/c", ""] ∧
      crowdedDocument.at? "/schemas/a~1b/~0x" = some (.array []) ∧
      ((violations crowdedDocument).filter fun v ↦ v.path.text = "/schemas/a~1b/~0x").length = 1 ∧
      ∀ v ∈ violations crowdedDocument, v.path.text ≠ "/schemas/a~1b/ok" := by
  have hread : Json.read crowdedText = .ok crowdedDocument := by with_unfolding_all rfl
  have hdistinct := Json.hasDistinctNames_of_read hread
  have hfield : Json.Pointer.text [.member "schemas", .member "a/b", .member "~x"] =
      "/schemas/a~1b/~0x" := Json.Pointer.text_eq (by decide)
  have hother : Json.Pointer.text [.member "schemas", .member "a/b", .member "ok"] =
      "/schemas/a~1b/ok" := Json.Pointer.text_eq (by decide)
  have hschema : Json.Pointer.text [.member "schemas", .member "c"] = "/schemas/c" :=
    Json.Pointer.text_eq (by decide)
  have hpaths : (violations crowdedDocument).map Violation.path =
      [[.member "schemas", .member "a/b", .member "~x"], [.member "schemas", .member "c"], []] := by
    decide
  have htexts : ((violations crowdedDocument).map fun v ↦ v.path.text) =
      ["/schemas/a~1b/~0x", "/schemas/c", ""] := by
    rw [show (fun v : Violation ↦ v.path.text) = Json.Pointer.text ∘ Violation.path from rfl,
      ← List.map_map, hpaths, List.map_cons, List.map_cons, hfield, hschema]
    rfl
  have hno : ¬ crowdedDocument.IsDocument := accepts_document_iff.not.mp (by decide)
  have hempty : ¬ (Json.array []).IsField := accepts_field_iff.not.mp (by decide)
  have htext : (Json.string "String").IsField := .element (.kind (by decide))
  obtain ⟨hrefused, -, hfields⟩ := violations_located hdistinct .empty
  obtain ⟨_, rfl, hat, hsingle, -⟩ := hfields _ _ "a/b" _ "~x" (.array []) rfl
    List.mem_cons_self List.mem_cons_self List.mem_cons_self
  obtain ⟨_, rfl, -, -, hneighbour, -⟩ := hfields _ _ "a/b" _ "ok" (.string "String") rfl
    List.mem_cons_self List.mem_cons_self (List.mem_cons_of_mem _ List.mem_cons_self)
  rw [hfield] at hat hsingle
  rw [hother] at hneighbour
  exact ⟨hread, hdistinct, hno, (hrefused hno).1, htexts, hat, hsingle hempty, hneighbour htext⟩

end Grammar

end DocumentTypes
