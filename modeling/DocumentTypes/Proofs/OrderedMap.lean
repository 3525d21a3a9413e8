import DocumentTypes.OrderedMap
import DocumentTypes.Proofs.FirstOccurrences
import Mathlib.Data.List.Basic
import Mathlib.Data.List.Induction

/-!
What a sequence of assignments leaves in an ordered map: each key at the place of its first
assignment with the value of its last one (`entries_ofList`). A map is determined by its keys and
their values (`entries_eq_filterMap`), so the statement is assembled from one on keys
(`keys_insertAll`) and one on values (`lookup?_insertAll`). Setting a key that is not in use only
appends (`entries_insert_of_notMem`).
-/

set_option autoImplicit false

namespace DocumentTypes.OrderedMap

variable {α : Type}

/-- The pairs that assignments leave: each key once, in the order of the first assignments, with
the value that it was assigned last. -/
def lastAssigned (assignments : List (String × α)) : List (String × α) :=
  (assignments.map Prod.fst).eraseDups.filterMap fun key ↦
    (assignments.reverse.lookup key).map (key, ·)

theorem insertAll_append (m : OrderedMap α) (first second : List (String × α)) :
    m.insertAll (first ++ second) = (m.insertAll first).insertAll second :=
  List.foldl_append ..

/-- Assignments append the keys that are not in use, in the order of their first assignments. -/
theorem keys_insertAll (m : OrderedMap α) (assignments : List (String × α)) :
    (m.insertAll assignments).keys = (m.keys ++ assignments.map Prod.fst).eraseDups := by
  induction assignments using List.reverseRecOn with
  | nil =>
    rw [List.map_nil, List.append_nil]
    exact (eraseDups_of_nodup m.nodup_keys).symm
  | append_singleton first last ih =>
    have hlast : (m.insertAll (first ++ [last])).keys =
        ((m.insertAll first).insert last.1 last.2).keys := by
      rw [insertAll_append]
      rfl
    rw [hlast, keys_insert, ih, List.map_append, ← List.append_assoc, List.map_singleton,
      eraseDups_concat]

/-- An assigned key has the value that it was assigned last; any other key keeps its value. -/
theorem lookup?_insertAll (m : OrderedMap α) (assignments : List (String × α)) (key : String) :
    (m.insertAll assignments).lookup? key =
      (assignments.reverse.lookup key).or (m.lookup? key) := by
  induction assignments using List.reverseRecOn with
  | nil => rfl
  | append_singleton first last ih =>
    have hlast : (m.insertAll (first ++ [last])).lookup? key =
        ((m.insertAll first).insert last.1 last.2).lookup? key := by
      rw [insertAll_append]
      rfl
    rw [hlast, lookup?_insert, ih, List.reverse_append, List.reverse_singleton,
      List.singleton_append, List.lookup_cons]
    by_cases hkey : key = last.1
    · simp [hkey]
    · have hbeq : (key == last.1) = false := by simpa using hkey
      simp [hkey, hbeq]

/-- A list of pairs with different keys is its keys with the values that they have in it. -/
theorem eq_filterMap_lookup {entries : List (String × α)}
    (hnodup : (entries.map Prod.fst).Nodup) :
    entries = (entries.map Prod.fst).filterMap fun key ↦ (entries.lookup key).map (key, ·) := by
  induction entries with
  | nil => rfl
  | cons entry rest ih =>
    obtain ⟨key, value⟩ := entry
    obtain ⟨hnew, hrest⟩ := List.nodup_cons.mp hnodup
    have htail : (rest.map Prod.fst).filterMap
          (fun other ↦ (((key, value) :: rest).lookup other).map (other, ·)) =
        (rest.map Prod.fst).filterMap fun other ↦ (rest.lookup other).map (other, ·) := by
      refine List.filterMap_congr fun other hother ↦ ?_
      have hbeq : (other == key) = false := by
        have hne : other ≠ key := fun h ↦ hnew (h ▸ hother)
        simpa using hne
      rw [List.lookup_cons, hbeq]
    rw [List.map_cons, List.filterMap_cons, List.lookup_cons_self, htail, ← ih hrest]
    rfl

/-- A map is its keys with their values. -/
theorem entries_eq_filterMap (m : OrderedMap α) :
    m.entries = m.keys.filterMap fun key ↦ (m.lookup? key).map (key, ·) :=
  eq_filterMap_lookup m.nodup_keys

/-- Assignments to an empty map leave each key at the place of its first assignment with the value
of its last. -/
theorem entries_ofList (assignments : List (String × α)) :
    (ofList assignments).entries = lastAssigned assignments := by
  rw [entries_eq_filterMap, ofList, keys_insertAll, lastAssigned]
  refine List.filterMap_congr fun key _ ↦ ?_
  rw [lookup?_insertAll]
  exact congrArg (Option.map (key, ·)) (Option.or_none ..)

theorem setEntry_of_notMem (key : String) (value : α) {entries : List (String × α)}
    (hnew : key ∉ entries.map Prod.fst) :
    setEntry key value entries = entries ++ [(key, value)] := by
  induction entries with
  | nil => rfl
  | cons entry rest ih =>
    obtain ⟨other, old⟩ := entry
    rw [List.map_cons, List.mem_cons, not_or] at hnew
    rw [setEntry, if_neg (Ne.symm hnew.1), ih hnew.2]
    rfl

/-- Setting a key that is not in use appends it. -/
theorem entries_insert_of_notMem {m : OrderedMap α} {key : String} (value : α)
    (hnew : key ∉ m.keys) : (m.insert key value).entries = m.entries ++ [(key, value)] :=
  setEntry_of_notMem key value hnew

theorem lookup?_eq_none_iff {m : OrderedMap α} {key : String} :
    m.lookup? key = none ↔ key ∉ m.keys := by
  rw [lookup?, List.lookup_eq_none_iff]
  constructor
  · intro hall hmem
    obtain ⟨entry, hentry, hkey⟩ := List.mem_map.mp hmem
    exact absurd hkey.symm (bne_iff_ne.mp (hall entry hentry))
  · intro hnew entry hentry
    exact bne_iff_ne.mpr fun h ↦ hnew (h ▸ List.mem_map_of_mem hentry)

/-- What a map holds is held by every map that it is the front of. -/
theorem lookup?_of_front {m n : OrderedMap α} (hfront : m.entries <+: n.entries) {key : String}
    {value : α} (h : m.lookup? key = some value) : n.lookup? key = some value := by
  obtain ⟨more, hmore⟩ := hfront
  rw [lookup?, ← hmore, List.lookup_append]
  exact Option.or_eq_some_iff.mpr (Or.inl h)

end DocumentTypes.OrderedMap
