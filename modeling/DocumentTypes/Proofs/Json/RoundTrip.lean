import DocumentTypes.Json.Printer
import DocumentTypes.Json.Reader
import DocumentTypes.Proofs.OrderedMap
import DocumentTypes.Proofs.Text.ClosingMark

/-!
What is printed can be read again. The text of a value without numbers, in which the members of
objects have different names and lists and objects are not too deep inside each other
(`Json.IsPlain`), takes one line and reads as the value (`Json.read_text`). Each reader is followed
over what is printed for it, whatever stands behind: escaped characters (`readText_escaped`), items,
members, and values by induction on the value (`readValue_text`).
-/

set_option autoImplicit false

namespace DocumentTypes.Json

/-- The reader gives the value and leaves `rest`. -/
def Yields {α : Type} {cs : List Char} (result : Except Fault (α × Rest cs)) (value : α)
    (rest : List Char) : Prop :=
  ∃ h, result = .ok (value, ⟨rest, h⟩)

/-! ### Texts -/

theorem hexDigit?_digitChar : ∀ n < 16, hexDigit? (Nat.digitChar n) = some n := by
  decide

theorem utf8Size_digitChar : ∀ n < 16, (Nat.digitChar n).utf8Size = 1 := by
  decide

theorem digitChar_ne_newline : ∀ n < 16, Nat.digitChar n ≠ '\n' := by
  decide

theorem readHex_digits {a b c d : Nat} (ha : a < 16) (hb : b < 16) (hc : c < 16) (hd : d < 16)
    (rest : List Char) :
    ∃ h, readHex (Nat.digitChar a :: Nat.digitChar b :: Nat.digitChar c :: Nat.digitChar d ::
      rest) = .ok (((a * 16 + b) * 16 + c) * 16 + d, ⟨rest, h⟩) := by
  unfold readHex
  have hbytes : ¬ byteCount ((Nat.digitChar a :: Nat.digitChar b :: Nat.digitChar c ::
      Nat.digitChar d :: rest).take 4) < 4 := by
    simp [byteCount, utf8Size_digitChar, ha, hb, hc, hd]
  rw [if_neg hbytes]
  simp only [hexDigit?_digitChar _ ha, hexDigit?_digitChar _ hb, hexDigit?_digitChar _ hc,
    hexDigit?_digitChar _ hd]
  exact ⟨by simp only [List.length_cons]; omega, trivial⟩

/-- The escape of a control character reads as the character. -/
theorem readEscape_control {c : Char} (hc : c.toNat < 0x20) (rest : List Char) :
    ∃ h, readEscape ('u' :: '0' :: '0' :: Nat.digitChar (c.toNat / 16) ::
      Nat.digitChar (c.toNat % 16) :: rest) = .ok (c, ⟨rest, h⟩) := by
  obtain ⟨h, hhex⟩ := @readHex_digits 0 0 (c.toNat / 16) (c.toNat % 16) (by decide) (by decide)
    (by omega) (by omega) rest
  have hcode : ((0 * 16 + 0) * 16 + c.toNat / 16) * 16 + c.toNat % 16 = c.toNat := by omega
  have htrailing : isTrailingSurrogate c.toNat = false := by
    simp only [isTrailingSurrogate, Bool.and_eq_false_iff, decide_eq_false_iff_not]
    omega
  have hleading : isLeadingSurrogate c.toNat = false := by
    simp only [isLeadingSurrogate, Bool.and_eq_false_iff, decide_eq_false_iff_not]
    omega
  have hhex' : readHex ('0' :: '0' :: Nat.digitChar (c.toNat / 16) ::
      Nat.digitChar (c.toNat % 16) :: rest) = .ok (c.toNat, ⟨rest, h⟩) := by
    rw [hcode] at hhex
    exact hhex
  simp only [readEscape, readUnicode, hhex', htrailing, hleading, Char.ofNat_toNat]
  exact ⟨by simp only [List.length_cons]; omega, rfl⟩

/-- A character stands for itself, or for what an escape without line breaks reads as. -/
theorem escapeChar_cases (c : Char) :
    (c ≠ '"' ∧ c ≠ '\\' ∧ 0x20 ≤ c.toNat ∧ (escapeChar c).toList = [c]) ∨
      ∃ cs, (escapeChar c).toList = '\\' :: cs ∧ '\n' ∉ cs ∧
        ∀ rest, ∃ h, readEscape (cs ++ rest) = .ok (c, ⟨rest, h⟩) := by
  unfold escapeChar
  split_ifs with hquote hbackslash h h h h h hcontrol
  iterate 7
    · subst_vars
      exact Or.inr ⟨[_], rfl, by decide, fun rest ↦ ⟨_, rfl⟩⟩
  · refine Or.inr ⟨['u', '0', '0', Nat.digitChar (c.toNat / 16), Nat.digitChar (c.toNat % 16)], ?_,
      ?_, fun rest ↦ readEscape_control hcontrol rest⟩
    · simp
    · have hhigh := digitChar_ne_newline (c.toNat / 16) (by omega)
      have hlow := digitChar_ne_newline (c.toNat % 16) (by omega)
      simp [hhigh.symm, hlow.symm]
  · exact Or.inl ⟨hquote, hbackslash, not_lt.mp hcontrol, String.toList_singleton c⟩

/-- The characters of a text inside its quotes. -/
def escaped (cs : List Char) : List Char :=
  cs.flatMap fun c ↦ (escapeChar c).toList

theorem escaped_cons (c : Char) (cs : List Char) :
    escaped (c :: cs) = (escapeChar c).toList ++ escaped cs :=
  List.flatMap_cons

theorem newline_notMem_escaped (cs : List Char) : '\n' ∉ escaped cs := by
  refine fun hmem ↦ ?_
  obtain ⟨c, -, hc⟩ := List.mem_flatMap.mp hmem
  rcases escapeChar_cases c with ⟨-, -, hcode, hchar⟩ | ⟨cs, hchar, hnone, -⟩
  · rw [hchar, List.mem_singleton] at hc
    obtain rfl := hc
    exact absurd hcode (by decide)
  · rw [hchar, List.mem_cons] at hc
    exact hc.elim (by decide) hnone

theorem toList_quote (s : String) : (quote s).toList = '"' :: (escaped s.toList ++ ['"']) := by
  rw [quote, String.toList_append, String.toList_append, String.foldl_eq_foldl_toList,
    Text.toList_foldl_append]
  rfl

/-- A printed text reads as itself, after the characters that have been read. -/
theorem readText_escaped (read cs rest : List Char) :
    Yields (readText read (escaped cs ++ '"' :: rest)) (String.ofList (read.reverse ++ cs))
      rest := by
  induction cs generalizing read with
  | nil =>
    rw [escaped, List.flatMap_nil, List.nil_append, List.append_nil, readText, if_pos rfl]
    exact ⟨_, rfl⟩
  | cons c more ih =>
    have htext : read.reverse ++ c :: more = (c :: read).reverse ++ more := by simp
    obtain ⟨hlt, hread⟩ := ih (c :: read)
    rw [← htext] at hread
    rw [escaped_cons, List.append_assoc]
    rcases escapeChar_cases c with ⟨hquote, hbackslash, hcode, hchar⟩ | ⟨cs, hchar, -, hescape⟩
    · rw [hchar, List.singleton_append, readText, if_neg hquote, if_neg hbackslash,
        if_neg (not_lt.mpr hcode), hread]
      exact ⟨_, rfl⟩
    · obtain ⟨hle, hescape⟩ := hescape (escaped more ++ '"' :: rest)
      rw [hchar, List.cons_append, readText, if_neg (by decide), if_pos rfl, hescape]
      dsimp only
      rw [hread]
      exact ⟨_, rfl⟩

/-! ### Values -/

/-- A value without numbers, with at most `depth` lists and objects inside each other, in which the
members of objects have different names. -/
inductive IsPlain : Nat → Json → Prop
  | null {depth : Nat} : IsPlain depth .null
  | bool {depth : Nat} (value : Bool) : IsPlain depth (.bool value)
  | string {depth : Nat} (value : String) : IsPlain depth (.string value)
  | array {depth : Nat} {items : List Json} (hitems : ∀ item ∈ items, IsPlain depth item) :
      IsPlain (depth + 1) (.array items)
  | object {depth : Nat} {members : List (String × Json)} (hnames : (members.map Prod.fst).Nodup)
      (hmembers : ∀ member ∈ members, IsPlain depth member.2) :
      IsPlain (depth + 1) (.object members)

/-- Texts with commas between them, after others or in front. -/
def separated (isFirst : Bool) : List String → List Char
  | [] => []
  | text :: rest => (if isFirst then [] else [',']) ++ text.toList ++ separated false rest

theorem toList_intercalate_comma (texts : List String) :
    (",".intercalate texts).toList = separated true texts := by
  have hothers (texts : List String) :
      texts.flatMap (fun text ↦ ",".toList ++ text.toList) = separated false texts := by
    induction texts with
    | nil => rfl
    | cons text rest ih =>
      rw [List.flatMap_cons, ih]
      rfl
  cases texts with
  | nil => rfl
  | cons text rest =>
    rw [Text.toList_intercalate_cons, hothers]
    rfl

theorem toList_text_array (items : List Json) :
    (array items).text.toList = '[' :: (separated true (itemTexts items) ++ [']']) := by
  rw [text, String.toList_append, String.toList_append, toList_intercalate_comma]
  rfl

theorem toList_text_object (members : List (String × Json)) :
    (object members).text.toList =
      '\x7b' :: (separated true (memberTexts members) ++ ['\x7d']) := by
  rw [text, String.toList_append, String.toList_append, toList_intercalate_comma]
  rfl

theorem skipSpace_cons {c : Char} (hc : isSpace c = false) (rest : List Char) :
    skipSpace (c :: rest) = ⟨c :: rest, Nat.le_refl _⟩ :=
  Subtype.ext (List.dropWhile_cons_of_neg (by simp [hc]))

theorem IsPlain.exists_text_eq {depth : Nat} {value : Json} (h : IsPlain depth value) :
    ∃ c more, value.text.toList = c :: more ∧ isSpace c = false ∧ c ≠ ']' := by
  cases h with
  | null => exact ⟨'n', _, rfl, rfl, by decide⟩
  | bool value =>
    cases value with
    | true => exact ⟨'t', _, rfl, rfl, by decide⟩
    | false => exact ⟨'f', _, rfl, rfl, by decide⟩
  | string value => exact ⟨'"', _, toList_quote value, rfl, by decide⟩
  | array hitems => exact ⟨'[', _, toList_text_array _, rfl, by decide⟩
  | object hnames hmembers => exact ⟨'\x7b', _, toList_text_object _, rfl, by decide⟩

theorem readLiteral_append (value : Json) (expected rest : List Char) :
    ∃ h, readLiteral value expected (expected ++ rest) = .ok (value, ⟨rest, h⟩) := by
  induction expected with
  | nil => exact ⟨_, rfl⟩
  | cons e more ih =>
    obtain ⟨h, hread⟩ := ih
    rw [List.cons_append, readLiteral, if_pos rfl, hread]
    exact ⟨_, rfl⟩

section Parts

variable {depth : Nat} {c : Char}

theorem nextItem_comma (hspace : isSpace c = false) (hbracket : c ≠ ']') (rest : List Char) :
    nextItem false ',' (c :: rest) = .ok ⟨c :: rest, Nat.le_succ _⟩ := by
  rw [nextItem, if_neg Bool.false_ne_true, if_pos rfl, skipSpace_cons hspace]
  exact if_neg hbracket

theorem nextMember_comma (rest : List Char) :
    nextMember false ',' ('"' :: rest) = .ok ⟨rest, Nat.lt_succ_of_lt (Nat.lt_succ_self _)⟩ := by
  rw [nextMember, if_neg Bool.false_ne_true, if_pos rfl, skipSpace_cons rfl]
  exact if_pos rfl

/-- A printed name reads as itself, up to the colon behind it. -/
theorem readKey_quoted (name : String) (rest : List Char) :
    Yields (readKey (escaped name.toList ++ '"' :: ':' :: rest)) name rest := by
  obtain ⟨hlt, hread⟩ := readText_escaped [] name.toList (':' :: rest)
  rw [List.reverse_nil, List.nil_append, String.ofList_toList] at hread
  rw [readKey, hread]
  dsimp only
  rw [skipSpace_cons rfl]
  exact ⟨_, rfl⟩

/-- Items that read as themselves are read up to the closing bracket. -/
theorem readItems_written {items : List Json}
    (hitems : ∀ item ∈ items, IsPlain depth item ∧
      ∀ rest, Yields (readValue depth (item.text.toList ++ rest)) item rest)
    (isFirst : Bool) (rest : List Char) :
    Yields (readItems depth isFirst (separated isFirst (itemTexts items) ++ ']' :: rest)) items
      rest := by
  induction items generalizing isFirst with
  | nil =>
    rw [itemTexts, separated, List.nil_append, readItems, skipSpace_cons rfl]
    exact ⟨_, rfl⟩
  | cons item more ih =>
    obtain ⟨⟨hplain, hread⟩, hmore⟩ := List.forall_mem_cons.mp hitems
    obtain ⟨c, others, hhead, hspace, hbracket⟩ := hplain.exists_text_eq
    have hvalue := hread (separated false (itemTexts more) ++ ']' :: rest)
    rw [hhead, List.cons_append] at hvalue
    obtain ⟨hlt, hvalue⟩ := hvalue
    obtain ⟨hlt', hothers⟩ := ih hmore false
    rw [itemTexts, separated]
    cases isFirst with
    | true =>
      rw [if_pos rfl, List.nil_append, hhead, List.append_assoc, List.cons_append,
        readItems, skipSpace_cons hspace]
      simp only [if_neg hbracket, nextItem, if_true, hvalue, hothers]
      exact ⟨_, rfl⟩
    | false =>
      rw [if_neg Bool.false_ne_true, hhead, List.append_assoc, List.append_assoc,
        List.singleton_append, List.cons_append, readItems, skipSpace_cons rfl]
      simp only [if_neg (by decide : ¬ ',' = ']'), nextItem_comma hspace hbracket, hvalue, hothers]
      exact ⟨_, rfl⟩

/-- Members whose values read as themselves are read up to the closing brace, after those that have
been read under other names: what is read under a new name goes to the end. -/
theorem readMembers_written {members : List (String × Json)}
    (hmembers : ∀ member ∈ members,
      ∀ rest, Yields (readValue depth (member.2.text.toList ++ rest)) member.2 rest)
    (isFirst : Bool) (read : List (String × Json))
    (hnames : ((read ++ members).map Prod.fst).Nodup) (rest : List Char) :
    Yields (readMembers depth isFirst read
      (separated isFirst (memberTexts members) ++ '\x7d' :: rest)) (read ++ members) rest := by
  induction members generalizing isFirst read with
  | nil =>
    rw [memberTexts, separated, List.nil_append, readMembers, skipSpace_cons rfl, List.append_nil]
    exact ⟨_, rfl⟩
  | cons member more ih =>
    obtain ⟨name, value⟩ := member
    obtain ⟨hread, hmore⟩ := List.forall_mem_cons.mp hmembers
    have hnew : name ∉ read.map Prod.fst := by
      rw [List.map_append, List.nodup_append] at hnames
      exact fun hmem ↦ hnames.2.2 name hmem name List.mem_cons_self rfl
    rw [List.append_cons read] at hnames ⊢
    obtain ⟨hlt', hothers⟩ := ih hmore false (read ++ [(name, value)]) hnames
    obtain ⟨hlt, hvalue⟩ := hread (separated false (memberTexts more) ++ '\x7d' :: rest)
    obtain ⟨hkey, hname⟩ := readKey_quoted name
      (value.text.toList ++ (separated false (memberTexts more) ++ '\x7d' :: rest))
    have hentry : OrderedMap.setEntry name value read = read ++ [(name, value)] :=
      OrderedMap.setEntry_of_notMem name value hnew
    rw [← hentry] at hothers ⊢
    have hwritten : (quote name ++ ":" ++ value.text).toList ++
        separated false (memberTexts more) ++ '\x7d' :: rest =
          '"' :: (escaped name.toList ++ '"' :: ':' :: (value.text.toList ++
            (separated false (memberTexts more) ++ '\x7d' :: rest))) := by
      simp [toList_quote]
    rw [memberTexts, separated]
    cases isFirst with
    | true =>
      rw [if_pos rfl, List.nil_append, hwritten, readMembers, skipSpace_cons rfl]
      simp only [if_neg (by decide : ¬ '"' = '\x7d'), nextMember, if_true, hname, hvalue, hothers]
      exact ⟨_, rfl⟩
    | false =>
      rw [if_neg Bool.false_ne_true, List.append_assoc [','], List.append_assoc [','], hwritten,
        List.singleton_append, readMembers, skipSpace_cons rfl]
      simp only [if_neg (by decide : ¬ ',' = '\x7d'), nextMember_comma, hname, hvalue, hothers]
      exact ⟨_, rfl⟩

end Parts

section Heads

variable {depth : Nat} {rest more : List Char}

theorem readValue_quote {value : String} (h : Yields (readText [] rest) value more) :
    Yields (readValue depth ('"' :: rest)) (.string value) more := by
  obtain ⟨hlt, hread⟩ := h
  rw [readValue, skipSpace_cons rfl]
  simp only [Char.reduceEq, reduceIte, hread]
  exact ⟨_, rfl⟩

theorem readValue_bracket {items : List Json} (h : Yields (readItems depth true rest) items more) :
    Yields (readValue (depth + 1) ('[' :: rest)) (.array items) more := by
  obtain ⟨hlt, hread⟩ := h
  rw [readValue, skipSpace_cons rfl]
  simp only [Char.reduceEq, reduceIte, hread]
  exact ⟨_, rfl⟩

theorem readValue_brace {members : List (String × Json)}
    (h : Yields (readMembers depth true [] rest) members more) :
    Yields (readValue (depth + 1) ('\x7b' :: rest)) (.object members) more := by
  obtain ⟨hlt, hread⟩ := h
  rw [readValue, skipSpace_cons rfl]
  simp only [Char.reduceEq, reduceIte, hread]
  exact ⟨_, rfl⟩

theorem readValue_null (rest : List Char) :
    Yields (readValue depth ("null".toList ++ rest)) .null rest := by
  obtain ⟨hle, hread⟩ := readLiteral_append .null "ull".toList rest
  change Yields (readValue depth ('n' :: ("ull".toList ++ rest))) .null rest
  rw [readValue, skipSpace_cons rfl]
  simp only [reduceIte, hread]
  exact ⟨_, rfl⟩

theorem readValue_bool (value : Bool) (rest : List Char) :
    Yields (readValue depth ((bool value).text.toList ++ rest)) (.bool value) rest := by
  cases value with
  | true =>
    obtain ⟨hle, hread⟩ := readLiteral_append (.bool true) "rue".toList rest
    change Yields (readValue depth ('t' :: ("rue".toList ++ rest))) (.bool true) rest
    rw [readValue, skipSpace_cons rfl]
    simp only [Char.reduceEq, reduceIte, hread]
    exact ⟨_, rfl⟩
  | false =>
    obtain ⟨hle, hread⟩ := readLiteral_append (.bool false) "alse".toList rest
    change Yields (readValue depth ('f' :: ("alse".toList ++ rest))) (.bool false) rest
    rw [readValue, skipSpace_cons rfl]
    simp only [Char.reduceEq, reduceIte, hread]
    exact ⟨_, rfl⟩

end Heads

/-- A printed value reads as itself, whatever stands behind it. The induction is on the value. -/
theorem readValue_text {depth : Nat} {value : Json} (h : IsPlain depth value) (rest : List Char) :
    Yields (readValue depth (value.text.toList ++ rest)) value rest := by
  induction h generalizing rest with
  | null => exact readValue_null rest
  | bool value => exact readValue_bool value rest
  | string value =>
    have hread := readText_escaped [] value.toList rest
    rw [List.reverse_nil, List.nil_append, String.ofList_toList] at hread
    rw [text, toList_quote, List.cons_append, List.append_assoc]
    exact readValue_quote hread
  | array hitems ih =>
    rw [toList_text_array, List.cons_append, List.append_assoc]
    exact readValue_bracket
      (readItems_written (fun item hitem ↦ ⟨hitems item hitem, ih item hitem⟩) true rest)
  | object hnames hmembers ih =>
    rw [toList_text_object, List.cons_append, List.append_assoc]
    exact readValue_brace (readMembers_written ih true [] hnames rest)

/-- The text of a plain value reads as the value. -/
theorem read_text {value : Json} (h : IsPlain depthLimit value) : read value.text = .ok value := by
  have hread := readValue_text h []
  rw [List.append_nil] at hread
  obtain ⟨hlt, hread⟩ := hread
  have hchars : readChars depthLimit value.text.toList = .ok value := by
    rw [readChars, hread]
    rfl
  unfold read
  dsimp only
  rw [hchars]

/-! ### Lines -/

theorem newline_notMem_quote (s : String) : '\n' ∉ (quote s).toList := by
  rw [toList_quote, List.mem_cons, List.mem_append, List.mem_singleton, not_or, not_or]
  exact ⟨by decide, newline_notMem_escaped s.toList, by decide⟩

theorem itemTexts_eq_map (items : List Json) : itemTexts items = items.map text := by
  induction items with
  | nil => rfl
  | cons item rest ih => rw [itemTexts, ih, List.map_cons]

theorem memberTexts_eq_map (members : List (String × Json)) :
    memberTexts members = members.map fun member ↦ quote member.1 ++ ":" ++ member.2.text := by
  induction members with
  | nil => rfl
  | cons member rest ih => rw [memberTexts, ih, List.map_cons]

theorem newline_notMem_separated {texts : List String}
    (htexts : ∀ text ∈ texts, '\n' ∉ text.toList) (isFirst : Bool) :
    '\n' ∉ separated isFirst texts := by
  induction texts generalizing isFirst with
  | nil => exact List.not_mem_nil
  | cons text rest ih =>
    obtain ⟨htext, hrest⟩ := List.forall_mem_cons.mp htexts
    rw [separated, List.mem_append, List.mem_append, not_or, not_or]
    exact ⟨⟨by cases isFirst <;> decide, htext⟩, ih hrest false⟩

theorem newline_notMem_member {member : String × Json} (h : '\n' ∉ member.2.text.toList) :
    '\n' ∉ (quote member.1 ++ ":" ++ member.2.text).toList := by
  rw [String.toList_append, String.toList_append, List.mem_append, List.mem_append, not_or, not_or]
  exact ⟨⟨newline_notMem_quote member.1, by decide⟩, h⟩

/-- The text of a plain value takes one line. -/
theorem newline_notMem_text {depth : Nat} {value : Json} (h : IsPlain depth value) :
    '\n' ∉ value.text.toList := by
  induction h with
  | null => decide
  | bool value => cases value <;> decide
  | string value => exact newline_notMem_quote value
  | array hitems ih =>
    rw [toList_text_array, List.mem_cons, List.mem_append, List.mem_singleton, not_or, not_or]
    refine ⟨by decide, newline_notMem_separated ?_ true, by decide⟩
    rw [itemTexts_eq_map]
    exact List.forall_mem_map.mpr ih
  | object hnames hmembers ih =>
    rw [toList_text_object, List.mem_cons, List.mem_append, List.mem_singleton, not_or, not_or]
    refine ⟨by decide, newline_notMem_separated ?_ true, by decide⟩
    rw [memberTexts_eq_map]
    exact List.forall_mem_map.mpr fun member hmember ↦ newline_notMem_member (ih member hmember)

end DocumentTypes.Json
