import Mathlib.Data.List.Infix

/-!
Texts that are closed by a mark. Where the mark does not begin inside the text (`Text.Closes`), the
text can be read off from what it begins, whatever stands behind the mark (`Closes.append_inj`). So
it is where there may be such a text or none (`Text.enclosed_inj`), and where several things are
written one after the other that can be read off one by one (`Text.flatMap_inj`).
-/

set_option autoImplicit false

namespace DocumentTypes.Text

variable {α : Type} {mark text text' rest rest' : List α}

/-- The mark does not begin inside the text. -/
def Closes (mark text : List α) : Prop :=
  ¬ mark <:+: text ++ mark.dropLast

instance [DecidableEq α] (mark text : List α) : Decidable (Closes mark text) :=
  inferInstanceAs (Decidable (¬ mark <:+: text ++ mark.dropLast))

/-- Where a text is followed by its mark, the first mark is at the end. -/
theorem Closes.eq_nil (h : Closes mark text) {before after : List α}
    (heq : text ++ mark = before ++ mark ++ after) : after = [] := by
  by_contra hne
  have hmark : mark ≠ [] := by
    rintro rfl
    exact h List.nil_infix
  apply h
  have hlast := congrArg List.dropLast heq
  rw [List.dropLast_append_of_ne_nil hmark, List.dropLast_append_of_ne_nil hne] at hlast
  exact ⟨before, after.dropLast, hlast.symm⟩

theorem Closes.append_inj (h : Closes mark text) (h' : Closes mark text')
    (heq : text ++ mark ++ rest = text' ++ mark ++ rest') : text = text' ∧ rest = rest' := by
  rcases List.append_eq_append_iff.mp heq with ⟨more, hmore, hrest⟩ | ⟨more, hmore, hrest⟩
  · obtain rfl := h'.eq_nil hmore
    rw [List.append_nil] at hmore
    exact ⟨(List.append_cancel_right hmore).symm, hrest⟩
  · obtain rfl := h.eq_nil hmore
    rw [List.append_nil] at hmore
    exact ⟨List.append_cancel_right hmore, hrest.symm⟩

theorem closes_singleton {a : α} (h : a ∉ text) : Closes [a] text := by
  intro hinside
  rw [List.dropLast_singleton, List.append_nil] at hinside
  exact h (hinside.subset (List.mem_singleton_self a))

/-- What stands in front of a first `a`, and what stands behind it. -/
theorem append_cons_inj {a : α} (h : a ∉ text) (h' : a ∉ text')
    (heq : text ++ a :: rest = text' ++ a :: rest') : text = text' ∧ rest = rest' := by
  rw [List.append_cons, List.append_cons text'] at heq
  exact (closes_singleton h).append_inj (closes_singleton h') heq

/-- A text closes with a mark when something inside the mark does not stand in the text: a mark that
began too early would have it inside the text, or before its first place in the mark. -/
theorem closes_of_notMem {front back : List α} {a : α} (hback : back ≠ []) (hfront : a ∉ front)
    (htext : a ∉ text) : Closes (front ++ a :: back) text := by
  rintro ⟨before, after, heq⟩
  rw [List.dropLast_append_of_ne_nil (List.cons_ne_nil _ _), List.dropLast_cons_of_ne_nil hback]
    at heq
  have hlength := congrArg List.length heq
  have hpos := List.length_pos_of_ne_nil hback
  simp only [List.length_append, List.length_cons, List.length_dropLast] at hlength
  have hplace : (before ++ front).length < (text ++ front).length := by
    rw [List.length_append, List.length_append]
    omega
  have ha : (text ++ front)[(before ++ front).length] = a := by
    have hget := congrArg (fun l ↦ l[(before ++ front).length]?) heq
    rw [← List.append_assoc text, List.getElem?_append_left hplace,
      List.getElem?_eq_getElem hplace, List.append_assoc, ← List.append_assoc before] at hget
    simpa using hget.symm
  have hmem := List.getElem_mem hplace
  rw [ha, List.mem_append] at hmem
  exact hmem.elim htext hfront

/-- A text between an opening and a mark, if there is a text. -/
def enclosed (opening mark : List α) : Option (List α) → List α
  | none => []
  | some text => opening ++ (text ++ mark)

/-- An enclosed text and what follows it can be read off, when that does not begin like an
opening. -/
theorem enclosed_inj {opening mark : List α} {text text' : Option (List α)}
    (hcloses : ∀ inner ∈ text, Closes mark inner) (hcloses' : ∀ inner ∈ text', Closes mark inner)
    (hrest : ¬ opening <+: rest) (hrest' : ¬ opening <+: rest')
    (heq : enclosed opening mark text ++ rest = enclosed opening mark text' ++ rest') :
    text = text' ∧ rest = rest' := by
  cases text with
  | none =>
    cases text' with
    | none => exact ⟨rfl, heq⟩
    | some inner' =>
      rw [enclosed, enclosed, List.nil_append, List.append_assoc] at heq
      exact absurd ⟨_, heq.symm⟩ hrest
  | some inner =>
    cases text' with
    | none =>
      rw [enclosed, enclosed, List.nil_append, List.append_assoc] at heq
      exact absurd ⟨_, heq⟩ hrest'
    | some inner' =>
      rw [enclosed, enclosed, List.append_assoc opening, List.append_assoc opening] at heq
      obtain ⟨hinner, hrest⟩ :=
        (hcloses inner rfl).append_inj (hcloses' inner' rfl) (List.append_cancel_left heq)
      exact ⟨congrArg some hinner, hrest⟩

/-- Things that are written one after the other can be read off when each of them can, and when what
follows the last does not begin like one more. -/
theorem flatMap_inj {β : Type} {write : β → List α} {items items' : List β}
    (hwrite : ∀ b ∈ items, ∀ b' ∈ items', ∀ rest rest',
      write b ++ rest = write b' ++ rest' → b = b' ∧ rest = rest')
    (hrest : ∀ b more, write b ++ more ≠ rest) (hrest' : ∀ b more, write b ++ more ≠ rest')
    (heq : items.flatMap write ++ rest = items'.flatMap write ++ rest') :
    items = items' ∧ rest = rest' := by
  induction items generalizing items' with
  | nil =>
    cases items' with
    | nil => exact ⟨rfl, heq⟩
    | cons b' more' =>
      rw [List.flatMap_nil, List.nil_append, List.flatMap_cons, List.append_assoc] at heq
      exact absurd heq.symm (hrest b' _)
  | cons b more ih =>
    cases items' with
    | nil =>
      rw [List.flatMap_nil, List.nil_append, List.flatMap_cons, List.append_assoc] at heq
      exact absurd heq (hrest' b _)
    | cons b' more' =>
      rw [List.flatMap_cons, List.flatMap_cons, List.append_assoc, List.append_assoc] at heq
      obtain ⟨rfl, hafter⟩ := hwrite b List.mem_cons_self b' List.mem_cons_self _ _ heq
      obtain ⟨rfl, hsame⟩ := ih (fun c hc c' hc' ↦
        hwrite c (List.mem_cons_of_mem _ hc) c' (List.mem_cons_of_mem _ hc')) hafter
      exact ⟨rfl, hsame⟩

/-- Texts with a separator between them are the first one, and then the separator and the text for
each of the others. -/
theorem toList_intercalate_cons (separator text : String) (texts : List String) :
    (separator.intercalate (text :: texts)).toList =
      text.toList ++ texts.flatMap fun text ↦ separator.toList ++ text.toList := by
  induction texts generalizing text with
  | nil => simp
  | cons next rest ih =>
    rw [String.intercalate_cons_cons, String.toList_append, String.toList_append, ih,
      List.flatMap_cons, List.append_assoc, List.append_assoc]

/-- A text that is put together of what is written for each character. -/
theorem toList_foldl_append (write : Char → String) (text : String) (cs : List Char) :
    (cs.foldl (fun text c ↦ text ++ write c) text).toList =
      text.toList ++ cs.flatMap fun c ↦ (write c).toList := by
  induction cs generalizing text with
  | nil => exact (List.append_nil _).symm
  | cons c rest ih =>
    rw [List.foldl_cons, ih, String.toList_append, List.flatMap_cons, List.append_assoc]

end DocumentTypes.Text
