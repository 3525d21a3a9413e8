import DocumentTypes.Proofs.OrderedMap
import Mathlib.Data.List.Forall2

/-!
Ordered maps with the same keys in the same order, whose values are related key by key
(`OrderedMap.Related`). What one of the two maps holds, the other holds a partner of
(`Related.exists_right`, `Related.exists_left`). Setting related pairs one after the other gives
related maps (`related_ofList`), and maps with the same keys are related when the values that they
hold under each key are (`related_of_lookup?`).
-/

set_option autoImplicit false

namespace DocumentTypes.OrderedMap

variable {α β γ : Type}

theorem mem_entries_iff {m : OrderedMap α} {key : String} {value : α} :
    (key, value) ∈ m.entries ↔ m.lookup? key = some value := by
  obtain ⟨entries, hnodup⟩ := m
  show (key, value) ∈ entries ↔ entries.lookup key = some value
  induction entries with
  | nil => simp
  | cons entry rest ih =>
    obtain ⟨other, old⟩ := entry
    obtain ⟨hnew, hrest⟩ := List.nodup_cons.mp hnodup
    rw [List.mem_cons, List.lookup_cons, Prod.mk.injEq]
    by_cases hkey : key = other
    · subst hkey
      have hmem : (key, value) ∉ rest := fun h ↦ hnew (List.mem_map.mpr ⟨_, h, rfl⟩)
      simp [hmem, eq_comm]
    · have hbeq : (key == other) = false := by simpa using hkey
      rw [hbeq, ← ih hrest]
      simp [hkey]

theorem mem_keys_iff {m : OrderedMap α} {key : String} :
    key ∈ m.keys ↔ ∃ value, m.lookup? key = some value := by
  rw [← Option.isSome_iff_exists, ← not_iff_not, Bool.not_eq_true, Option.isSome_eq_false_iff,
    Option.isNone_iff_eq_none, lookup?_eq_none_iff]

theorem mem_values_iff {m : OrderedMap α} {value : α} :
    value ∈ m.values ↔ ∃ key, m.lookup? key = some value := by
  simp only [values, List.mem_map, Prod.exists, exists_eq_right, mem_entries_iff]

/-- Pairs with different keys are the entries of the map that they build. -/
theorem entries_ofList_of_nodup {entries : List (String × α)}
    (hnodup : (entries.map Prod.fst).Nodup) : (ofList entries).entries = entries := by
  induction entries using List.reverseRecOn with
  | nil => rfl
  | append_singleton front last ih =>
    rw [List.map_append, List.map_singleton, List.nodup_append] at hnodup
    obtain ⟨hnodup, -, hdisjoint⟩ := hnodup
    have hfront := ih hnodup
    have hnew : last.1 ∉ (ofList front).keys := by
      rw [keys, hfront]
      exact fun h ↦ hdisjoint _ h _ (List.mem_singleton_self _) rfl
    have hlast : ofList (front ++ [last]) = (ofList front).insert last.1 last.2 :=
      insertAll_append empty front [last]
    rw [hlast, entries_insert_of_notMem last.2 hnew, hfront]

/-- Maps with the same keys in the same order and related values. -/
def Related (R : String → α → β → Prop) (m : OrderedMap α) (n : OrderedMap β) : Prop :=
  List.Forall₂ (fun a b ↦ a.1 = b.1 ∧ R a.1 a.2 b.2) m.entries n.entries

section Related

variable {R : String → α → β → Prop} {m : OrderedMap α} {n : OrderedMap β}

theorem Related.keys_eq (h : m.Related R n) : m.keys = n.keys := by
  rw [keys, keys, ← List.forall₂_eq_eq_eq, List.forall₂_map_left_iff, List.forall₂_map_right_iff]
  exact h.imp fun _ _ hpair ↦ hpair.1

theorem related_of_lookup? (hkeys : m.keys = n.keys)
    (h : ∀ key a b, m.lookup? key = some a → n.lookup? key = some b → R key a b) :
    m.Related R n := by
  have hlength : m.entries.length = n.entries.length := by
    simpa only [keys, List.length_map] using congrArg List.length hkeys
  refine List.forall₂_iff_get.mpr ⟨hlength, fun i hi hi' ↦ ?_⟩
  have hkey : (m.entries.get ⟨i, hi⟩).1 = (n.entries.get ⟨i, hi'⟩).1 := by
    have hget := List.getElem_of_eq hkeys (by simpa only [keys, List.length_map] using hi)
    simpa only [keys, List.getElem_map, List.get_eq_getElem] using hget
  have hleft := mem_entries_iff.mp (List.get_mem m.entries ⟨i, hi⟩)
  have hright := mem_entries_iff.mp (List.get_mem n.entries ⟨i, hi'⟩)
  exact ⟨hkey, h _ _ _ hleft (hkey ▸ hright)⟩

theorem Related.exists_right (h : m.Related R n) {key : String} {a : α}
    (ha : m.lookup? key = some a) : ∃ b, n.lookup? key = some b ∧ R key a b := by
  rw [lookup?] at ha
  unfold Related at h
  show ∃ b, n.entries.lookup key = some b ∧ R key a b
  generalize m.entries = entries, n.entries = partners at h ha
  induction h with
  | nil => exact absurd ha (by simp)
  | @cons entry partner rest partners hpair _ ih =>
    obtain ⟨other, value⟩ := entry
    obtain ⟨_, value'⟩ := partner
    obtain ⟨rfl, hvalue⟩ := hpair
    by_cases hkey : key = other
    · subst hkey
      rw [List.lookup_cons_self] at ha ⊢
      exact ⟨value', rfl, Option.some.inj ha ▸ hvalue⟩
    · have hbeq : (key == other) = false := by simpa using hkey
      rw [List.lookup_cons, hbeq] at ha ⊢
      exact ih ha

theorem Related.exists_left (h : m.Related R n) {key : String} {b : β}
    (hb : n.lookup? key = some b) : ∃ a, m.lookup? key = some a ∧ R key a b := by
  obtain ⟨a, ha⟩ := mem_keys_iff.mp (h.keys_eq ▸ mem_keys_iff.mpr ⟨b, hb⟩)
  obtain ⟨b', hb', hrelated⟩ := h.exists_right ha
  obtain rfl := Option.some.inj (hb.symm.trans hb')
  exact ⟨a, ha, hrelated⟩

theorem Related.imp {S : String → α → β → Prop} (h : m.Related R n)
    (himp : ∀ key a b, m.lookup? key = some a → n.lookup? key = some b → R key a b → S key a b) :
    m.Related S n := by
  refine related_of_lookup? h.keys_eq fun key a b ha hb ↦ ?_
  obtain ⟨b', hb', hrelated⟩ := h.exists_right ha
  obtain rfl := Option.some.inj (hb.symm.trans hb')
  exact himp key a b ha hb hrelated

theorem Related.comp {S : String → β → γ → Prop} {o : OrderedMap γ} (h : m.Related R n)
    (h' : n.Related S o) : m.Related (fun key a c ↦ ∃ b, R key a b ∧ S key b c) o := by
  refine related_of_lookup? (h.keys_eq.trans h'.keys_eq) fun key a c ha hc ↦ ?_
  obtain ⟨b, hb, hfirst⟩ := h.exists_right ha
  obtain ⟨c', hc', hsecond⟩ := h'.exists_right hb
  obtain rfl := Option.some.inj (hc.symm.trans hc')
  exact ⟨b, hfirst, hsecond⟩

theorem Related.insert (h : m.Related R n) {key : String} {a : α} {b : β} (hpair : R key a b) :
    (m.insert key a).Related R (n.insert key b) := by
  refine related_of_lookup? (by rw [keys_insert, keys_insert, h.keys_eq]) fun other a' b' ha hb ↦ ?_
  rw [lookup?_insert] at ha hb
  by_cases hother : other = key
  · rw [if_pos hother] at ha hb
    obtain rfl := Option.some.inj ha
    obtain rfl := Option.some.inj hb
    rwa [hother]
  · rw [if_neg hother] at ha hb
    obtain ⟨b'', hb', hrelated⟩ := h.exists_right ha
    obtain rfl := Option.some.inj (hb.symm.trans hb')
    exact hrelated

/-- Setting related pairs one after the other keeps related maps related. -/
theorem related_insertAll (h : m.Related R n) {pairs : List (String × α)}
    {partners : List (String × β)}
    (hpairs : List.Forall₂ (fun a b ↦ a.1 = b.1 ∧ R a.1 a.2 b.2) pairs partners) :
    (m.insertAll pairs).Related R (n.insertAll partners) := by
  induction hpairs generalizing m n with
  | nil => exact h
  | @cons pair partner pairs partners hpair _ ih =>
    obtain ⟨key, value⟩ := pair
    obtain ⟨_, value'⟩ := partner
    obtain ⟨rfl, hvalue⟩ := hpair
    exact ih (h.insert hvalue)

theorem related_ofList {pairs : List (String × α)} {partners : List (String × β)}
    (hpairs : List.Forall₂ (fun a b ↦ a.1 = b.1 ∧ R a.1 a.2 b.2) pairs partners) :
    (ofList pairs).Related R (ofList partners) :=
  related_insertAll (m := empty) (n := empty) List.Forall₂.nil hpairs

/-- Pairs that are related to the entries of a map are the entries of a related map. -/
theorem related_ofList_of_entries {partners : List (String × β)}
    (h : List.Forall₂ (fun a b ↦ a.1 = b.1 ∧ R a.1 a.2 b.2) m.entries partners) :
    m.Related R (ofList partners) := by
  have hkeys : m.entries.map Prod.fst = partners.map Prod.fst := by
    rw [← List.forall₂_eq_eq_eq, List.forall₂_map_left_iff, List.forall₂_map_right_iff]
    exact h.imp fun _ _ hpair ↦ hpair.1
  rw [Related, entries_ofList_of_nodup (hkeys ▸ m.nodup_keys)]
  exact h

end Related

end DocumentTypes.OrderedMap
