import DocumentTypes.Definitions
import DocumentTypes.Proofs.Build.WriteOnce
import DocumentTypes.Proofs.OrderedMap.Related
import DocumentTypes.Proofs.Render.Outline

/-!
The grammar of type expressions. A text spells an expression when it is a name or an expression in
brackets, with blanks around it (`TypeExpr.Spells`). Reading takes the blanks and one pair of
brackets off the ends of the text and goes on with what is between them; it gives the expression
that the text spells, and an error when the text spells none (`TypeExpr.ofChars?_eq_some_iff`).

The text of a type is the expression that was resolved to it, without blanks, provided that types
are registered under their own names (`World.typeExpr_of_resolve`). So it can be read again
(`type_expressions_round_trip`).
-/

set_option autoImplicit false

namespace DocumentTypes

/-! ### Blanks -/

namespace Text

variable {front core back : List Char}

/-- There are no characters but blanks. -/
def IsBlankText (cs : List Char) : Prop :=
  ∀ c ∈ cs, isBlank c = true

/-- Only blanks are trimmed at the end, and all that are there. -/
theorem exists_trimEnd_eq (cs : List Char) :
    ∃ back, IsBlankText back ∧ cs = trimEnd cs ++ back ∧
      ∀ c ∈ (trimEnd cs).getLast?, isBlank c = false := by
  refine ⟨(cs.reverse.takeWhile isBlank).reverse, ?_, ?_, ?_⟩
  · intro c hc
    exact List.all_eq_true.mp List.all_takeWhile c (List.mem_reverse.mp hc)
  · rw [trimEnd, ← List.reverse_append, List.takeWhile_append_dropWhile, List.reverse_reverse]
  · intro c hc
    rw [trimEnd, List.getLast?_reverse] at hc
    have hfirst := List.head?_dropWhile_not isBlank cs.reverse
    rw [hc] at hfirst
    exact hfirst

/-- Only blanks are trimmed. -/
theorem exists_trim_eq (cs : List Char) :
    ∃ front back, IsBlankText front ∧ IsBlankText back ∧ cs = front ++ trim cs ++ back := by
  obtain ⟨back, hback, heq, -⟩ := exists_trimEnd_eq (cs.dropWhile isBlank)
  refine ⟨cs.takeWhile isBlank, back, List.all_eq_true.mp List.all_takeWhile, hback, ?_⟩
  rw [List.append_assoc, trim, ← heq, List.takeWhile_append_dropWhile]

theorem dropWhile_append (hfront : IsBlankText front) (hcore : core ≠ [])
    (hfirst : ∀ c ∈ core.head?, isBlank c = false) :
    (front ++ (core ++ back)).dropWhile isBlank = core ++ back := by
  rw [List.dropWhile_append_of_pos hfront]
  cases core with
  | nil => exact absurd rfl hcore
  | cons first rest => exact List.dropWhile_cons_of_neg (by simp [hfirst first rfl])

/-- All blanks at the ends are trimmed. -/
theorem trim_append (hfront : IsBlankText front) (hback : IsBlankText back) (hcore : core ≠ [])
    (hfirst : ∀ c ∈ core.head?, isBlank c = false)
    (hlast : ∀ c ∈ core.getLast?, isBlank c = false) : trim (front ++ core ++ back) = core := by
  have hback' : IsBlankText back.reverse := fun c hc ↦ hback c (List.mem_reverse.mp hc)
  rw [← List.head?_reverse] at hlast
  rw [List.append_assoc, trim, dropWhile_append hfront hcore hfirst, trimEnd, List.reverse_append,
    ← List.append_nil core.reverse,
    dropWhile_append hback' (List.reverse_ne_nil_iff.mpr hcore) hlast, List.append_nil,
    List.reverse_reverse]

/-- The characters that are not blanks. -/
def squeeze (cs : List Char) : List Char :=
  cs.filter fun c ↦ !isBlank c

theorem squeeze_append_of_blank (hfront : IsBlankText front) (hback : IsBlankText back) :
    squeeze (front ++ core ++ back) = squeeze core := by
  have hnone : ∀ {cs : List Char}, IsBlankText cs → squeeze cs = [] := fun h ↦
    List.filter_eq_nil_iff.mpr fun c hc ↦ by simp [h c hc]
  rw [squeeze, List.filter_append, List.filter_append, ← squeeze, ← squeeze, ← squeeze,
    hnone hfront, hnone hback, List.nil_append, List.append_nil]

end Text

namespace TypeExpr

open Text

variable {cs inner name : List Char} {expr : TypeExpr}

/-! ### Names -/

/-- A name: an ASCII letter or an underscore, followed by ASCII letters, digits and underscores. -/
def IsTypeName (cs : List Char) : Prop :=
  ∃ first rest, cs = first :: rest ∧ (first.isAlpha = true ∨ first = '_') ∧
    ∀ c ∈ rest, c.isAlpha = true ∨ c.isDigit = true ∨ c = '_'

theorem isName_iff : isName cs = true ↔ IsTypeName cs := by
  cases cs with
  | nil => exact ⟨fun h ↦ absurd h (by simp [isName]), fun ⟨_, _, h, _⟩ ↦ absurd h (by simp)⟩
  | cons first rest =>
    simp [IsTypeName, isName, isNameStart, isNameRest, Char.isAlphanum, or_assoc]

theorem isNameRest_of_isTypeName (h : IsTypeName name) : ∀ c ∈ name, isNameRest c = true := by
  obtain ⟨first, rest, rfl, hfirst, hrest⟩ := h
  intro c hc
  rw [isNameRest, Char.isAlphanum, Bool.or_eq_true, Bool.or_eq_true, decide_eq_true_iff]
  rcases List.mem_cons.mp hc with rfl | hc
  · exact hfirst.imp_left Or.inl
  · exact or_assoc.mpr (hrest c hc)

theorem toNat_of_isNameRest {c : Char} (h : isNameRest c = true) :
    65 ≤ c.toNat ∧ c.toNat ≤ 90 ∨ 97 ≤ c.toNat ∧ c.toNat ≤ 122 ∨ 48 ≤ c.toNat ∧ c.toNat ≤ 57 ∨
      c.toNat = 95 := by
  have hranges : (decide ('A'.val ≤ c.val ∧ c.val ≤ 'Z'.val) ||
      (decide ('a'.val ≤ c.val) && decide (c.val ≤ 'z'.val)) ||
      (decide ('0'.val ≤ c.val) && decide (c.val ≤ '9'.val)) || decide (c = '_')) = true := h
  simp only [Bool.or_eq_true, Bool.and_eq_true, decide_eq_true_eq, UInt32.le_iff_toNat_le,
    or_assoc] at hranges
  rcases hranges with h | h | h | rfl
  · exact Or.inl h
  · exact Or.inr (Or.inl h)
  · exact Or.inr (Or.inr (Or.inl h))
  · exact Or.inr (Or.inr (Or.inr rfl))

theorem isBlank_of_isNameRest {c : Char} (h : isNameRest c = true) : isBlank c = false := by
  have hcode := toNat_of_isNameRest h
  simp only [isBlank, Bool.or_eq_false_iff, Bool.and_eq_false_iff, decide_eq_false_iff_not]
  omega

theorem IsTypeName.not_blank (h : IsTypeName name) : ∀ c ∈ name, isBlank c = false :=
  fun c hc ↦ isBlank_of_isNameRest (isNameRest_of_isTypeName h c hc)

theorem IsTypeName.ne_nil (h : IsTypeName name) : name ≠ [] := by
  obtain ⟨first, rest, rfl, -⟩ := h
  exact List.cons_ne_nil first rest

/-- The expression of a name: a scalar, or a type of this name. -/
def ofName (name : String) : TypeExpr :=
  match Scalar.ofName? name with
  | some s => .scalar s
  | none => .named name

theorem name_of_ofName? {name : String} {s : Scalar} (h : Scalar.ofName? name = some s) :
    s.name = name := by
  unfold Scalar.ofName? at h
  split_ifs at h with hname hname hname hname hname
  all_goals
    obtain rfl := Option.some.inj h
    exact hname.symm

theorem text_ofName (name : String) : (ofName name).text = name := by
  unfold ofName
  cases h : Scalar.ofName? name with
  | none => rfl
  | some s => exact name_of_ofName? h

/-! ### The grammar -/

/-- The text spells the expression: it is a name, or an expression in brackets, between blanks. -/
inductive Spells : List Char → TypeExpr → Prop
  | name {front name back : List Char} (hfront : IsBlankText front) (hname : IsTypeName name)
      (hback : IsBlankText back) : Spells (front ++ name ++ back) (ofName (String.ofList name))
  | list {front inner back : List Char} {expr : TypeExpr} (hfront : IsBlankText front)
      (hinner : Spells inner expr) (hback : IsBlankText back) :
      Spells (front ++ ('[' :: inner ++ [']']) ++ back) (.list expr)

theorem unbracket?_eq_some_iff : unbracket? cs = some inner ↔ cs = '[' :: inner ++ [']'] := by
  constructor
  · intro h
    unfold unbracket? at h
    split at h
    · next rest =>
      split at h
      · next hlast =>
        obtain rfl := Option.some.inj h
        rw [List.cons_append, List.dropLast_append_getLast? _ hlast]
      · exact absurd h (by simp)
    · exact absurd h (by simp)
  · rintro rfl
    simp [unbracket?]

theorem IsTypeName.unbracket?_eq_none (h : IsTypeName name) : unbracket? name = none := by
  rw [Option.eq_none_iff_forall_not_mem]
  intro inner hinner
  have hbracket : '[' ∈ name := by
    rw [unbracket?_eq_some_iff.mp hinner]
    exact List.mem_cons_self
  exact absurd (isNameRest_of_isTypeName h _ hbracket) (by decide)

theorem ofChars?_of_brackets (h : unbracket? (trim cs) = some inner) :
    ofChars? cs = (ofChars? inner).map list := by
  rw [ofChars?]
  split
  · next inner' h' => rw [Option.some.inj (h'.symm.trans h)]
  · next h' => exact absurd (h'.symm.trans h) (by simp)

theorem isName_of_ofName? {s : Scalar} (h : Scalar.ofName? (String.ofList cs) = some s) :
    isName cs = true := by
  have hname := congrArg String.toList (name_of_ofName? h)
  rw [String.toList_ofList] at hname
  rw [← hname]
  cases s <;> decide

/-- Characters without brackets around them are read as a name, also as that of a scalar. -/
theorem ofChars?_of_no_brackets (h : unbracket? (trim cs) = none) :
    ofChars? cs = if isName (trim cs) then some (ofName (String.ofList (trim cs))) else none := by
  rw [ofChars?, ofName]
  split
  · next inner h' => exact absurd (h.symm.trans h') (by simp)
  · dsimp only
    cases hscalar : Scalar.ofName? (String.ofList (trim cs)) with
    | none => rfl
    | some s => exact (if_pos (isName_of_ofName? hscalar)).symm

theorem spells_of_ofChars? (cs : List Char) {expr : TypeExpr} (h : ofChars? cs = some expr) :
    Spells cs expr := by
  obtain ⟨front, back, hfront, hback, hcs⟩ := exists_trim_eq cs
  cases hbrackets : unbracket? (trim cs) with
  | some inner =>
    rw [ofChars?_of_brackets hbrackets] at h
    obtain ⟨element, helement, rfl⟩ := Option.map_eq_some_iff.mp h
    have hinner := spells_of_ofChars? inner helement
    rw [hcs, unbracket?_eq_some_iff.mp hbrackets]
    exact .list hfront hinner hback
  | none =>
    rw [ofChars?_of_no_brackets hbrackets] at h
    split at h
    · next hname =>
      obtain rfl := Option.some.inj h
      have hspells := Spells.name hfront (isName_iff.mp hname) hback
      rwa [← hcs] at hspells
    · exact absurd h (by simp)
termination_by cs.length
decreasing_by exact (length_unbracket?_lt hbrackets).trans_le (length_trim_le cs)

theorem ofChars?_of_spells (h : Spells cs expr) : ofChars? cs = some expr := by
  induction h with
  | @name front name back hfront hname hback =>
    have htrim : trim (front ++ name ++ back) = name :=
      trim_append hfront hback hname.ne_nil
        (fun c hc ↦ hname.not_blank c (List.mem_of_mem_head? hc))
        (fun c hc ↦ hname.not_blank c (List.mem_of_mem_getLast? hc))
    have hnone : unbracket? (trim (front ++ name ++ back)) = none := by
      rw [htrim]
      exact hname.unbracket?_eq_none
    rw [ofChars?_of_no_brackets hnone, htrim, if_pos (isName_iff.mpr hname)]
  | @list front inner back expr hfront _ hback ih =>
    have htrim : trim (front ++ ('[' :: inner ++ [']']) ++ back) = '[' :: inner ++ [']'] := by
      refine trim_append hfront hback (by simp) ?_ ?_
      · rintro c hc
        obtain rfl := Option.some.inj hc
        rfl
      · rintro c hc
        rw [List.getLast?_append] at hc
        obtain rfl := Option.some.inj hc
        rfl
    rw [ofChars?_of_brackets (by rw [htrim]; exact unbracket?_eq_some_iff.mpr rfl), ih]
    rfl

/-- A text reads as the expression that it spells. -/
theorem ofChars?_eq_some_iff : ofChars? cs = some expr ↔ Spells cs expr :=
  ⟨spells_of_ofChars? cs, ofChars?_of_spells⟩

theorem squeeze_of_isTypeName (h : IsTypeName name) : squeeze name = name :=
  List.filter_eq_self.mpr fun c hc ↦ by simp [h.not_blank c hc]

theorem squeeze_brackets (inner : List Char) :
    squeeze ('[' :: inner ++ [']']) = '[' :: squeeze inner ++ [']'] := by
  rw [squeeze, List.filter_append]
  rfl

/-- The text of the expression is what was written, without the blanks. -/
theorem Spells.toList_text (h : Spells cs expr) : expr.text.toList = squeeze cs := by
  induction h with
  | name hfront hname hback =>
    rw [squeeze_append_of_blank hfront hback, squeeze_of_isTypeName hname, text_ofName,
      String.toList_ofList]
  | @list front inner back expr hfront _ hback ih =>
    rw [squeeze_append_of_blank hfront hback, squeeze_brackets, ← ih, TypeExpr.text,
      String.toList_append, String.toList_append]
    rfl

/-- What is left without the blanks spells the same expression. -/
theorem Spells.squeezed (h : Spells cs expr) : Spells (squeeze cs) expr := by
  have hnone : IsBlankText [] := fun c hc ↦ absurd hc List.not_mem_nil
  induction h with
  | name hfront hname hback =>
    rw [squeeze_append_of_blank hfront hback, squeeze_of_isTypeName hname]
    have hspells := Spells.name hnone hname hnone
    rwa [List.nil_append, List.append_nil] at hspells
  | @list front inner back expr hfront _ hback ih =>
    have hspells := Spells.list hnone ih hnone
    rw [List.nil_append, List.append_nil] at hspells
    rwa [squeeze_append_of_blank hfront hback, squeeze_brackets]

theorem parse_eq_ok_iff_spells {text : String} :
    parse text = .ok expr ↔ Spells text.toList expr := by
  rw [parse_eq_ok_iff, ofText?, ofChars?_eq_some_iff]

theorem parse_eq_error_iff_spells {text : String} {e : LoadError} :
    parse text = .error e ↔ (∀ expr, ¬ Spells text.toList expr) ∧ e = .invalidTypeExpr text := by
  rw [parse_eq_error_iff, ofText?, Option.eq_none_iff_forall_not_mem]
  exact and_congr_left' (forall_congr' fun expr ↦ not_congr ofChars?_eq_some_iff)

end TypeExpr

/-! ### Types of expressions -/

namespace World

variable {P : Producers} {w : World P} {registry : RegistryId} {typeName : String}
  {expr : TypeExpr} {type : TypeRef}

/-- Every type is registered under its own name. -/
def HasOwnNames (w : World P) (registry : RegistryId) : Prop :=
  ∀ name t, w.lookup registry name = some t → (w.typeAt t).name = name

/-- An expression that is resolved to a type is that of the type. -/
theorem typeExpr_of_resolve (hnames : w.HasOwnNames registry)
    (h : w.resolve registry typeName expr = .ok type) : w.typeExpr type = expr := by
  induction expr generalizing type with
  | scalar s =>
    obtain rfl := Except.ok.inj h
    rfl
  | list element ih =>
    unfold resolve at h
    cases helement : w.resolve registry typeName element with
    | error e => exact absurd h (by simp [helement, Except.map])
    | ok inner =>
      rw [helement] at h
      obtain rfl := Except.ok.inj h
      rw [typeExpr, ih helement]
  | named name =>
    unfold resolve at h
    cases hlookup : w.lookup registry name with
    | none => exact absurd h (by simp [hlookup])
    | some t =>
      rw [hlookup] at h
      obtain rfl := Except.ok.inj h
      rw [typeExpr, hnames name t hlookup]

end World

/-- Type expressions are read by their grammar, and round trip. A text is read exactly as the
expression that it spells, and when it spells none the error has the text itself, with its blanks.
Where types are registered under their own names, an expression that is read and resolved gives a
type whose text is what was written, without the blanks; and this text is read as the same
expression, which is resolved to the same type. -/
theorem type_expressions_round_trip (s : String) :
    (∀ expr, TypeExpr.parse s = .ok expr ↔ TypeExpr.Spells s.toList expr) ∧
    (∀ e, TypeExpr.parse s = .error e ↔
      (∀ expr, ¬ TypeExpr.Spells s.toList expr) ∧ e = .invalidTypeExpr s) ∧
    ∀ (P : Producers) (w : World P) (registry : RegistryId), w.HasOwnNames registry →
      ∀ expr typeName type, TypeExpr.parse s = .ok expr →
        w.resolve registry typeName expr = .ok type →
          w.typeText type = String.ofList (s.toList.filter fun c ↦ !Text.isBlank c) ∧
          TypeExpr.parse (w.typeText type) = .ok expr ∧
          ∀ typeName', w.resolve registry typeName' expr = .ok type := by
  refine ⟨fun expr ↦ TypeExpr.parse_eq_ok_iff_spells, fun e ↦ TypeExpr.parse_eq_error_iff_spells,
    fun P w registry hnames expr typeName type hparse hresolve ↦ ?_⟩
  have hspells := TypeExpr.parse_eq_ok_iff_spells.mp hparse
  have htext : w.typeText type = String.ofList (Text.squeeze s.toList) := by
    rw [← w.text_typeExpr, World.typeExpr_of_resolve hnames hresolve, ← hspells.toList_text,
      String.ofList_toList]
  refine ⟨htext, ?_, World.resolve_of_keeps (fun _ _ hlookup ↦ hlookup) hresolve⟩
  rw [TypeExpr.parse_eq_ok_iff_spells, htext, String.toList_ofList]
  exact hspells.squeezed

theorem hasOwnNames_animalWorld : animalWorld.HasOwnNames 0 := by
  intro name t hlookup
  have hentries : (animalWorld.registryAt 0).entries = [("Animal_home", 0), ("Animal", 1)] := by
    decide +kernel
  have hmem := OrderedMap.mem_entries_iff.mpr hlookup
  rw [hentries, List.mem_cons, List.mem_singleton] at hmem
  rcases hmem with h | h
  · obtain ⟨rfl, rfl⟩ := Prod.mk.inj h
    decide +kernel
  · obtain ⟨rfl, rfl⟩ := Prod.mk.inj h
    decide +kernel

/-- Lists of lists of animals, written with a wide and with narrow blanks. -/
theorem type_expressions_round_trip_animal :
    TypeExpr.Spells " [\u2003[ Animal]]".toList (.list (.list (.named "Animal"))) ∧
    animalWorld.HasOwnNames 0 ∧
    animalWorld.resolve 0 "Zoo" (.list (.list (.named "Animal"))) = .ok (.list (.list (.named 1))) ∧
    animalWorld.typeText (.list (.list (.named 1))) = "[[Animal]]" ∧
    TypeExpr.parse "[[Animal]]" = .ok (.list (.list (.named "Animal"))) ∧
    animalWorld.resolve 0 "" (.list (.list (.named "Animal"))) = .ok (.list (.list (.named 1))) ∧
    ∀ expr, ¬ TypeExpr.Spells " [[Animal ".toList expr := by
  have hparse : TypeExpr.parse " [\u2003[ Animal]]" = .ok (.list (.list (.named "Animal"))) := by
    with_unfolding_all rfl
  have hresolve : animalWorld.resolve 0 "Zoo" (.list (.list (.named "Animal"))) =
      .ok (.list (.list (.named 1))) := by decide +kernel
  obtain ⟨hspells, -, hround⟩ := type_expressions_round_trip " [\u2003[ Animal]]"
  obtain ⟨htext, hagain, hresolves⟩ :=
    hround .none animalWorld 0 hasOwnNames_animalWorld _ "Zoo" _ hparse hresolve
  have hsqueezed : animalWorld.typeText (.list (.list (.named 1))) = "[[Animal]]" :=
    htext.trans (by decide +kernel)
  rw [hsqueezed] at hagain
  obtain ⟨-, hrefused, -⟩ := type_expressions_round_trip " [[Animal "
  obtain ⟨hnone, -⟩ := (hrefused (.invalidTypeExpr " [[Animal ")).mp (by with_unfolding_all rfl)
  exact ⟨(hspells _).mp hparse, hasOwnNames_animalWorld, hresolve, hsqueezed, hagain, hresolves "",
    hnone⟩

end DocumentTypes
