/-!
Maps from text to values that keep their keys in the order in which they were first set. Setting
a key again keeps its position and replaces its value (`keys_insert`, `lookup?_insert`).
-/

set_option autoImplicit false

namespace DocumentTypes

/-- A finite map with text keys, in the order in which the keys were first set. -/
structure OrderedMap (α : Type) where
  entries : List (String × α)
  nodup_keys : (entries.map Prod.fst).Nodup
deriving DecidableEq

namespace OrderedMap

variable {α β : Type}

/-- The pairs with `key` set to `value`: in place when the key occurs, at the end otherwise. -/
def setEntry (key : String) (value : α) : List (String × α) → List (String × α)
  | [] => [(key, value)]
  | (k, v) :: rest => if k = key then (k, value) :: rest else (k, v) :: setEntry key value rest

theorem map_fst_setEntry (key : String) (value : α) (entries : List (String × α)) :
    (setEntry key value entries).map Prod.fst =
      if key ∈ entries.map Prod.fst then entries.map Prod.fst
      else entries.map Prod.fst ++ [key] := by
  induction entries with
  | nil => rfl
  | cons entry rest ih =>
    obtain ⟨k, v⟩ := entry
    by_cases hk : k = key
    · simp [setEntry, hk]
    · have hk' : key ≠ k := fun h ↦ hk h.symm
      by_cases hmem : key ∈ rest.map Prod.fst <;> simp_all [setEntry]

theorem nodup_map_fst_setEntry (key : String) (value : α) {entries : List (String × α)}
    (h : (entries.map Prod.fst).Nodup) : ((setEntry key value entries).map Prod.fst).Nodup := by
  rw [map_fst_setEntry]
  split
  · exact h
  · next hmem =>
    rw [List.nodup_append]
    exact ⟨h, by simp, fun a ha b hb ↦ by
      rintro rfl
      exact hmem (List.mem_singleton.mp hb ▸ ha)⟩

theorem lookup_setEntry (key : String) (value : α) (entries : List (String × α)) (k : String) :
    (setEntry key value entries).lookup k = if k = key then some value else entries.lookup k := by
  induction entries with
  | nil =>
    by_cases h : k = key
    · simp [setEntry, h]
    · have hbeq : (k == key) = false := by simpa using h
      simp [setEntry, List.lookup_cons, h, hbeq]
  | cons entry rest ih =>
    obtain ⟨k', v⟩ := entry
    by_cases hk : k' = key
    · subst hk
      by_cases h : k = k'
      · simp [setEntry, h]
      · have hbeq : (k == k') = false := by simpa using h
        simp [setEntry, List.lookup_cons, h, hbeq]
    · by_cases h : k = k'
      · subst h
        simp [setEntry, hk]
      · have hbeq : (k == k') = false := by simpa using h
        simp [setEntry, hk, List.lookup_cons, hbeq, ih]

def empty : OrderedMap α := ⟨[], List.nodup_nil⟩

instance : EmptyCollection (OrderedMap α) := ⟨empty⟩

instance : Inhabited (OrderedMap α) := ⟨empty⟩

/-- Sets `key` to `value`. -/
def insert (m : OrderedMap α) (key : String) (value : α) : OrderedMap α :=
  ⟨setEntry key value m.entries, nodup_map_fst_setEntry key value m.nodup_keys⟩

/-- Sets each key to its value, in order. -/
def insertAll (m : OrderedMap α) (entries : List (String × α)) : OrderedMap α :=
  entries.foldl (fun m entry ↦ m.insert entry.1 entry.2) m

/-- The map that setting each key to its value, in order, builds. -/
def ofList (entries : List (String × α)) : OrderedMap α :=
  empty.insertAll entries

/-- Forgets `key`. -/
def erase (m : OrderedMap α) (key : String) : OrderedMap α :=
  ⟨m.entries.filter (fun entry ↦ entry.1 ≠ key),
    m.nodup_keys.sublist (List.filter_sublist.map Prod.fst)⟩

def lookup? (m : OrderedMap α) (key : String) : Option α :=
  m.entries.lookup key

def keys (m : OrderedMap α) : List String :=
  m.entries.map Prod.fst

def values (m : OrderedMap α) : List α :=
  m.entries.map Prod.snd

def contains (m : OrderedMap α) (key : String) : Bool :=
  m.keys.contains key

def size (m : OrderedMap α) : Nat :=
  m.entries.length

def isEmpty (m : OrderedMap α) : Bool :=
  m.entries.isEmpty

theorem keys_insert (m : OrderedMap α) (key : String) (value : α) :
    (m.insert key value).keys = if key ∈ m.keys then m.keys else m.keys ++ [key] :=
  map_fst_setEntry key value m.entries

theorem lookup?_insert (m : OrderedMap α) (key : String) (value : α) (k : String) :
    (m.insert key value).lookup? k = if k = key then some value else m.lookup? k :=
  lookup_setEntry key value m.entries k

theorem mem_keys_of_lookup? {m : OrderedMap α} {key : String} {value : α}
    (h : m.lookup? key = some value) : key ∈ m.keys := by
  obtain ⟨l₁, l₂, hl, -⟩ := List.lookup_eq_some_iff.mp h
  simp [keys, hl]

@[simp] theorem keys_empty : (∅ : OrderedMap α).keys = [] := rfl

@[simp] theorem lookup?_empty (key : String) : (∅ : OrderedMap α).lookup? key = none := rfl

end OrderedMap

end DocumentTypes
