import DocumentTypes.Json.Pointer
import DocumentTypes.Proofs.Text.ClosingMark
import Mathlib.Data.List.Nodup

/-!
What pointers point to. The text of a pointer is taken apart at its slashes, and the escapes in
between are undone, as RFC 6901 has it (`Pointer.tokens?`); the tokens lead from a value to a part
of it (`Json.at?`). The text of a path gives the tokens of the path (`Pointer.tokens?_text`), so the
text determines them (`Pointer.text_eq_iff`), and a text that goes on behind a slash belongs to a
path with more tokens (`Pointer.exists_tokens_of_below`). Where names are not repeated
(`Json.HasDistinctNames`), the token of a part leads to it (`Json.HasDistinctNames.child?_eq`).
-/

set_option autoImplicit false

namespace DocumentTypes.Json

/-! ### Reading pointers -/

/-- The name that an escaped name stands for. A tilde is followed by a zero or a one. -/
def unescape? : List Char → Option (List Char)
  | [] => some []
  | '~' :: '0' :: rest => (unescape? rest).map ('~' :: ·)
  | '~' :: '1' :: rest => (unescape? rest).map ('/' :: ·)
  | '~' :: _ => none
  | c :: rest => (unescape? rest).map (c :: ·)

/-- The tokens of a pointer: what follows each of its slashes, unescaped. -/
def Pointer.tokens? (pointer : String) : Option (List String) :=
  match pointer.toList.splitOn '/' with
  | [] :: tokens => tokens.mapM fun token ↦ (unescape? token).map .ofList
  | _ => none

/-- The parts of a value by their tokens: members by name, and items by decimal index. -/
def parts : Json → List (String × Json)
  | object members => members
  | array items => items.zipIdx.map fun item ↦ (toString item.2, item.1)
  | _ => []

def child? (value : Json) (token : String) : Option Json :=
  value.parts.lookup token

/-- The part of a value that a pointer points to. -/
def at? (value : Json) (pointer : String) : Option Json :=
  (Pointer.tokens? pointer).bind fun tokens ↦ tokens.foldlM child? value

/-- What stands between two slashes for a step, before it is escaped. -/
def Segment.token : Segment → String
  | member name => name
  | item index => toString index

def Pointer.tokens (path : Pointer) : List String :=
  path.map Segment.token

/-! ### Escapes -/

def escapedChar (c : Char) : List Char :=
  if c = '~' then ['~', '0'] else if c = '/' then ['~', '1'] else [c]

theorem toList_escapeSegment (name : String) :
    (escapeSegment name).toList = name.toList.flatMap escapedChar := by
  have hchar (c : Char) : (if c = '~' then "~0" else if c = '/' then "~1"
      else String.singleton c).toList = escapedChar c := by
    unfold escapedChar
    split_ifs <;> simp
  rw [escapeSegment, String.foldl_eq_foldl_toList, Text.toList_foldl_append]
  simp only [hchar]
  rfl

theorem unescape?_cons {c : Char} (hc : c ≠ '~') (rest : List Char) :
    unescape? (c :: rest) = (unescape? rest).map (c :: ·) := by
  rw [unescape?]
  all_goals simp [hc]

/-- Escapes can be undone. -/
theorem unescape?_escaped (cs : List Char) : unescape? (cs.flatMap escapedChar) = some cs := by
  induction cs with
  | nil => rfl
  | cons c rest ih =>
    rw [List.flatMap_cons, escapedChar]
    split_ifs with htilde hslash
    · simp [unescape?, ih, htilde]
    · simp [unescape?, ih, hslash]
    · rw [List.singleton_append, unescape?_cons htilde, ih]
      rfl

theorem slash_notMem_escaped (cs : List Char) : '/' ∉ cs.flatMap escapedChar := by
  intro hmem
  obtain ⟨c, -, hc⟩ := List.mem_flatMap.mp hmem
  unfold escapedChar at hc
  split_ifs at hc with htilde hslash
  · exact absurd hc (by decide)
  · exact absurd hc (by decide)
  · exact hslash (List.mem_singleton.mp hc).symm

/-- Digits are not escaped. -/
theorem escaped_digits (n : Nat) :
    (toString n).toList.flatMap escapedChar = (toString n).toList := by
  have hdigit : ∀ c ∈ (toString n).toList, escapedChar c = [c] := by
    intro c hc
    rw [Nat.toString_eq_repr, Nat.toList_repr] at hc
    have hdigit := Nat.isDigit_of_mem_toDigits (by decide) (by decide) hc
    have htilde : c ≠ '~' := fun h ↦ absurd (h ▸ hdigit) (by decide)
    have hslash : c ≠ '/' := fun h ↦ absurd (h ▸ hdigit) (by decide)
    rw [escapedChar, if_neg htilde, if_neg hslash]
  rw [List.flatMap_congr hdigit, List.flatMap_singleton']

/-! ### Tokens -/

theorem Segment.toList_text (segment : Segment) :
    segment.text.toList = segment.token.toList.flatMap escapedChar := by
  cases segment with
  | member name => exact toList_escapeSegment name
  | item index => exact (escaped_digits index).symm

namespace Pointer

variable {path path' : Pointer}

theorem toList_text (path : Pointer) :
    path.text.toList = path.flatMap fun segment ↦ '/' :: segment.text.toList := by
  rw [text, String.toList_join, List.flatMap_map]
  simp [String.toList_append]

/-- A text is that of a path when it has the escaped tokens of the path behind slashes. -/
theorem text_eq {text : String}
    (h : (path.flatMap fun segment ↦ '/' :: segment.token.toList.flatMap escapedChar) =
      text.toList) : path.text = text := by
  rw [← String.toList_inj, toList_text, ← h]
  simp only [Segment.toList_text]

theorem splitOn_text (path : Pointer) :
    path.text.toList.splitOn '/' = [] :: path.map fun segment ↦ segment.text.toList := by
  have hfront (path : Pointer) (front : List Char) (hslash : '/' ∉ front) :
      (front ++ path.flatMap fun segment ↦ '/' :: segment.text.toList).splitOn '/' =
        front :: path.map fun segment ↦ segment.text.toList := by
    induction path generalizing front with
    | nil => rw [List.flatMap_nil, List.append_nil, List.splitOn_eq_singleton hslash, List.map_nil]
    | cons segment path ih =>
      have hsegment : '/' ∉ segment.text.toList := by
        rw [Segment.toList_text]
        exact slash_notMem_escaped _
      rw [List.flatMap_cons, List.cons_append, List.splitOn_append_cons_self_of_not_mem hslash,
        ih _ hsegment, List.map_cons]
  rw [toList_text]
  exact hfront path [] List.not_mem_nil

/-- The text of a path gives the tokens of the path. -/
theorem tokens?_text (path : Pointer) : tokens? path.text = some path.tokens := by
  rw [tokens?, splitOn_text]
  dsimp only
  induction path with
  | nil => rfl
  | cons segment path ih =>
    rw [List.map_cons, List.mapM_cons, ih, Segment.toList_text, unescape?_escaped]
    simp [tokens]

theorem text_eq_iff : path.text = path'.text ↔ path.tokens = path'.tokens := by
  constructor
  · intro h
    exact Option.some.inj ((tokens?_text path).symm.trans (h ▸ tokens?_text path'))
  · intro h
    have htexts (path : Pointer) :
        path.text = String.join (path.tokens.map fun token ↦ "/" ++ escapeSegment token) := by
      have htoken (segment : Segment) : segment.text = escapeSegment segment.token :=
        String.toList_inj.mp (segment.toList_text.trans (toList_escapeSegment _).symm)
      rw [text, tokens, List.map_map]
      simp only [Function.comp_def, htoken]
    rw [htexts path, htexts path', h]

/-- A pointer below another one has more tokens. -/
theorem exists_tokens_of_below (h : (path.text ++ "/").toList <+: path'.text.toList) :
    ∃ token more, path'.tokens = path.tokens ++ token :: more := by
  obtain ⟨rest, hrest⟩ := h
  have hsplit := splitOn_text path'
  rw [← hrest, String.toList_append, List.append_assoc] at hsplit
  change (path.text.toList ++ '/' :: rest).splitOn '/' = _ at hsplit
  rw [List.splitOn_append_cons_self, splitOn_text, List.cons_append] at hsplit
  obtain ⟨front, back, rfl, hfront, hback⟩ :=
    List.map_eq_append_iff.mp (List.cons.inj hsplit).2.symm
  have htexts : Pointer.text front = path.text := by
    have hsame : front.map Segment.text = path.map Segment.text := by
      refine List.map_injective_iff.mpr (fun _ _ ↦ String.toList_inj.mp) ?_
      rw [List.map_map, List.map_map]
      exact hfront
    have hjoin := congrArg (fun texts ↦ String.join (texts.map ("/" ++ ·))) hsame
    rw [List.map_map, List.map_map] at hjoin
    exact hjoin
  cases back with
  | nil => exact absurd hback.symm (List.splitOn_ne_nil '/' rest)
  | cons segment back =>
    refine ⟨segment.token, tokens back, ?_⟩
    rw [← text_eq_iff.mp htexts]
    exact List.map_append

end Pointer

/-! ### Parts -/

/-- The parts of the value have different names, and so have theirs. Items always do. -/
inductive HasDistinctNames : Json → Prop
  | intro {value : Json} (hnodup : (value.parts.map Prod.fst).Nodup)
      (hparts : ∀ part ∈ value.parts, HasDistinctNames part.2) : HasDistinctNames value

theorem HasDistinctNames.nodup {value : Json} (h : value.HasDistinctNames) :
    (value.parts.map Prod.fst).Nodup := by
  obtain ⟨hnodup, -⟩ := h
  exact hnodup

theorem HasDistinctNames.of_mem {value : Json} {part : String × Json} (h : value.HasDistinctNames)
    (hmem : part ∈ value.parts) : part.2.HasDistinctNames := by
  obtain ⟨-, hparts⟩ := h
  exact hparts part hmem

theorem nodup_itemTokens (items : List Json) : ((array items).parts.map Prod.fst).Nodup := by
  have hindices : (array items).parts.map Prod.fst =
      (items.zipIdx.map Prod.snd).map fun index ↦ toString index := by
    rw [parts, List.map_map, List.map_map]
    rfl
  have hinjective : Function.Injective fun index : Nat ↦ toString index := by
    intro m n h
    have hdigits := congrArg String.toList h
    simp only [Nat.toString_eq_repr, Nat.toList_repr] at hdigits
    calc m = Nat.ofDigitChars 10 (Nat.toDigits 10 m) 0 := Nat.ofDigitChars_ten_toDigits.symm
      _ = Nat.ofDigitChars 10 (Nat.toDigits 10 n) 0 := by rw [hdigits]
      _ = n := Nat.ofDigitChars_ten_toDigits
  rw [hindices, List.zipIdx_map_snd]
  exact List.Nodup.map hinjective List.nodup_range'

/-- The token of a part leads to the part. -/
theorem HasDistinctNames.child?_eq {value part : Json} {token : String}
    (h : value.HasDistinctNames) (hmem : (token, part) ∈ value.parts) :
    value.child? token = some part := by
  have hnodup := h.nodup
  obtain ⟨before, after, heq⟩ := List.append_of_mem hmem
  refine List.lookup_eq_some_iff.mpr ⟨before, after, heq, fun other hother ↦ ?_⟩
  rw [heq, List.map_append, List.map_cons] at hnodup
  have hnew := (List.nodup_append.mp hnodup).2.2 _ (List.mem_map_of_mem hother) token (by simp)
  simpa using Ne.symm hnew

theorem HasDistinctNames.foldlM_child?_cons {value part : Json} {token : String}
    (h : value.HasDistinctNames) (hmem : (token, part) ∈ value.parts) (more : List String) :
    (token :: more).foldlM child? value = more.foldlM child? part := by
  rw [List.foldlM_cons, h.child?_eq hmem]
  rfl

theorem at?_text (value : Json) (path : Pointer) :
    value.at? path.text = path.tokens.foldlM child? value := by
  rw [at?, Pointer.tokens?_text]
  rfl

end DocumentTypes.Json
