import Mathlib.Data.List.Basic
import Mathlib.Data.List.Nodup

/-!
# A cache of named instances

A map keyed by name that hands out an instance number for each name it is given:
the first name gets instance `0`, a new name the next number, and storing under a
known name keeps its number and replaces the value.  `NameCache β` carries the
proof that no name has two instances.

* `store`, `lookupName`, `lookup` — store under a name, look a name up, look an
  instance number up.
* `lookupName_store` — the map law.
* `names_store`, `mem_names_store` — which names are in the cache.
-/

/-- Named instances in the order in which they were numbered.  The names are different,
so a number and a name say the same instance, and an instance never changes its number. -/
structure NameCache (β : Type*) where
  entries : List (List Char × β)
  nodup : (entries.map Prod.fst).Nodup

namespace NameCache

variable {β : Type*}

/-- The cache before anything is stored. -/
def empty : NameCache β := ⟨[], List.nodup_nil⟩

/-- The names of the instances. -/
def names (c : NameCache β) : List (List Char) := c.entries.map Prod.fst

/-- The number of instances; their numbers are the ones below it. -/
def size (c : NameCache β) : ℕ := c.entries.length

/-- The value stored under a name. -/
def lookupName (c : NameCache β) (name : List Char) : Option β := c.entries.lookup name

/-- The name and the value of an instance number, which never changes once it is given. -/
def lookup (c : NameCache β) (inst : ℕ) : Option (List Char × β) := c.entries[inst]?

/-- Replace the value under a known name, or append a new instance. -/
def storeList (name : List Char) (v : β) : List (List Char × β) → List (List Char × β)
  | [] => [(name, v)]
  | e :: es => if e.1 = name then (name, v) :: es else e :: storeList name v es

theorem map_fst_storeList (name : List Char) (v : β) (es : List (List Char × β)) :
    (storeList name v es).map Prod.fst =
      if name ∈ es.map Prod.fst then es.map Prod.fst else es.map Prod.fst ++ [name] := by
  induction es with
  | nil => rfl
  | cons e es ih =>
    rw [storeList]
    by_cases he : e.1 = name
    · simp [he]
    · rw [if_neg he, List.map_cons, ih, List.map_cons]
      by_cases hmem : name ∈ es.map Prod.fst
      · rw [if_pos hmem, if_pos (List.mem_cons_of_mem _ hmem)]
      · have hnot : name ∉ e.1 :: es.map Prod.fst := by
          rw [List.mem_cons]
          rintro (h | h)
          · exact he h.symm
          · exact hmem h
        rw [if_neg hmem, if_neg hnot, List.cons_append]

theorem lookup_storeList (name : List Char) (v : β) (es : List (List Char × β))
    (key : List Char) :
    (storeList name v es).lookup key = if key = name then some v else es.lookup key := by
  induction es with
  | nil =>
    by_cases hk : key = name
    · simp [storeList, hk]
    · have hb : (key == name) = false := by simpa using hk
      simp [storeList, List.lookup_cons, hk, hb]
  | cons e es ih =>
    obtain ⟨n, w⟩ := e
    rw [storeList]
    by_cases he : n = name
    · subst he
      by_cases hk : key = n
      · simp [hk]
      · have hb : (key == n) = false := by simpa using hk
        simp [List.lookup_cons, hk, hb]
    · rw [if_neg he]
      by_cases hk : key = n
      · subst hk
        simp [he]
      · have hb : (key == n) = false := by simpa using hk
        simp only [List.lookup_cons, hb, ih]

/-- Store a value under a name.  The instance number is the one that the name had, or the
next one. -/
def store (c : NameCache β) (name : List Char) (v : β) : NameCache β where
  entries := storeList name v c.entries
  nodup := by
    rw [map_fst_storeList]
    split
    · exact c.nodup
    · next hmem =>
      rw [List.nodup_append]
      refine ⟨c.nodup, List.nodup_singleton name, ?_⟩
      intro a ha b hb hab
      rw [List.mem_singleton] at hb
      exact hmem (by rw [← hb, ← hab]; exact ha)

/-- **The map law**: a stored name reads what was stored, the others read what
they did. -/
theorem lookupName_store (c : NameCache β) (name : List Char) (v : β) (key : List Char) :
    (c.store name v).lookupName key = if key = name then some v else c.lookupName key :=
  lookup_storeList name v c.entries key

theorem names_store (c : NameCache β) (name : List Char) (v : β) :
    (c.store name v).names = if name ∈ c.names then c.names else c.names ++ [name] :=
  map_fst_storeList name v c.entries

theorem mem_names_store (c : NameCache β) (name : List Char) (v : β) (key : List Char) :
    key ∈ (c.store name v).names ↔ key = name ∨ key ∈ c.names := by
  rw [names_store]
  split
  · next hmem =>
    constructor
    · exact Or.inr
    · rintro (rfl | h)
      · exact hmem
      · exact h
  · simp only [List.mem_append, List.mem_singleton]
    exact or_comm

@[simp] theorem names_empty : (empty : NameCache β).names = [] := rfl

@[simp] theorem lookupName_empty (name : List Char) :
    (empty : NameCache β).lookupName name = none := rfl

theorem length_names (c : NameCache β) : c.names.length = c.size := by
  simp [names, size]

/-- An instance number and a name lead to the same value. -/
theorem lookupName_of_lookup {c : NameCache β} {inst : ℕ} {name : List Char} {v : β}
    (h : c.lookup inst = some (name, v)) : c.lookupName name = some v := by
  have hmem : (name, v) ∈ c.entries := List.mem_of_getElem? h
  have hnd := c.nodup
  unfold lookupName
  generalize c.entries = es at hmem hnd
  induction es with
  | nil => simp at hmem
  | cons e es ih =>
    obtain ⟨n, w⟩ := e
    rw [List.map_cons, List.nodup_cons] at hnd
    rcases List.mem_cons.mp hmem with heq | hmem'
    · obtain ⟨rfl, rfl⟩ := Prod.mk.inj heq
      simp
    · have hne : (name == n) = false := by
        have : name ≠ n := by
          rintro rfl
          exact hnd.1 (List.mem_map.mpr ⟨(name, v), hmem', rfl⟩)
        simpa using this
      simp only [List.lookup_cons, hne]
      exact ih hmem' hnd.2

/-- Every name of the cache has an instance number. -/
theorem exists_lookup_of_lookupName {c : NameCache β} {name : List Char} {v : β}
    (h : c.lookupName name = some v) : ∃ inst, c.lookup inst = some (name, v) := by
  unfold lookupName at h
  unfold lookup
  generalize c.entries = es at h
  induction es with
  | nil => simp at h
  | cons e es ih =>
    obtain ⟨n, w⟩ := e
    by_cases hk : name = n
    · subst hk
      simp only [List.lookup_cons, beq_self_eq_true, Option.some.injEq] at h
      exact ⟨0, by simp [h]⟩
    · have hb : (name == n) = false := by simpa using hk
      simp only [List.lookup_cons, hb] at h
      obtain ⟨inst, hinst⟩ := ih h
      exact ⟨inst + 1, by simpa using hinst⟩

theorem mem_names_of_lookup {c : NameCache β} {inst : ℕ} {name : List Char} {v : β}
    (h : c.lookup inst = some (name, v)) : name ∈ c.names :=
  List.mem_map.mpr ⟨(name, v), List.mem_of_getElem? h, rfl⟩

end NameCache
