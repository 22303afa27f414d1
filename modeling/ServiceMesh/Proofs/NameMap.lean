import Mathlib.Data.List.Basic
import ServiceMesh.NameMap

/-!
# Looking up names

A map is known by its look-ups: each way to build one has an equation for `get?`, and two maps with
the same look-ups are equal.  The names are in strictly ascending order, so an entry of the list is
the same as an answer of a look-up.
-/

namespace ServiceMesh.NameMap

variable {α β : Type}

theorem lookup_cons_of_ne {name first : String} (h : name ≠ first) (held : α)
    (rest : List (String × α)) : ((first, held) :: rest).lookup name = rest.lookup name := by
  rw [List.lookup_cons, beq_eq_false_iff_ne.2 h]

/-- Ascending names are different ones, so a look-up finds every entry. -/
theorem lookup_eq_some_iff_mem {entries : List (String × α)}
    (h : entries.Pairwise (fun a b ↦ a.1 < b.1)) (name : String) (value : α) :
    entries.lookup name = some value ↔ (name, value) ∈ entries := by
  induction entries with
  | nil => simp
  | cons head rest ih =>
    obtain ⟨first, held⟩ := head
    obtain ⟨hhead, hrest⟩ := List.pairwise_cons.1 h
    rw [List.mem_cons, Prod.mk.injEq]
    by_cases hname : name = first
    · subst hname
      have hnot : (name, value) ∉ rest := fun hmem ↦ String.lt_irrefl name (hhead _ hmem)
      simp [hnot, eq_comm]
    · rw [lookup_cons_of_ne hname, ih hrest]
      simp [hname]

theorem get?_eq_some_iff {m : NameMap α} {name : String} {value : α} :
    m.get? name = some value ↔ (name, value) ∈ m.entries :=
  lookup_eq_some_iff_mem m.ascending name value

theorem contains_iff {m : NameMap α} {name : String} :
    m.contains name ↔ ∃ value, (name, value) ∈ m.entries := by
  simp only [contains, Option.isSome_iff_exists, get?_eq_some_iff]

theorem contains_of_get? {m : NameMap α} {name : String} {value : α}
    (h : m.get? name = some value) : m.contains name := by
  rw [contains, h]
  rfl

theorem mem_names_iff {m : NameMap α} {name : String} : name ∈ m.names ↔ m.contains name := by
  simp [names, contains_iff]

/-- The values are the answers of all look-ups. -/
theorem mem_values_iff {m : NameMap α} {value : α} :
    value ∈ m.values ↔ ∃ name, m.get? name = some value := by
  simp [values, get?_eq_some_iff]

theorem names_ascending (m : NameMap α) : m.names.Pairwise (· < ·) :=
  List.pairwise_map.2 m.ascending

/-- A map holds nothing but its answers. -/
theorem ext_get? {m m' : NameMap α} (h : ∀ name, m.get? name = m'.get? name) : m = m' := by
  have hmem : ∀ entry : String × α, entry ∈ m.entries ↔ entry ∈ m'.entries := by
    rintro ⟨name, value⟩
    rw [← get?_eq_some_iff, ← get?_eq_some_iff, h]
  have hnodup (m : NameMap α) : m.entries.Nodup := by
    apply m.ascending.imp
    rintro a _ hlt rfl
    exact String.lt_irrefl a.1 hlt
  have hperm : m.entries.Perm m'.entries :=
    (List.perm_ext_iff_of_nodup (hnodup m) (hnodup m')).2 hmem
  have hentries : m.entries = m'.entries :=
    hperm.eq_of_pairwise (fun a b _ _ hab hba ↦ absurd hab (String.lt_asymm hba))
      m.ascending m'.ascending
  cases m
  cases m'
  cases hentries
  rfl

theorem lookup_insertEntry (name : String) (value : α) (other : String)
    (entries : List (String × α)) :
    (insertEntry name value entries).lookup other =
      if other = name then some value else entries.lookup other := by
  induction entries with
  | nil => by_cases h : other = name <;> simp [insertEntry, h]
  | cons head rest ih =>
    obtain ⟨first, held⟩ := head
    unfold insertEntry
    by_cases hother : other = name
    · subst hother
      split
      · simp
      · split
        · simp
        · next hne => rw [lookup_cons_of_ne hne, ih, if_pos rfl, if_pos rfl]
    · rw [if_neg hother] at ih ⊢
      split
      · rw [lookup_cons_of_ne hother]
      · split
        · next heq =>
          have hfirst : other ≠ first := fun h ↦ hother (h.trans heq.symm)
          rw [lookup_cons_of_ne hother, lookup_cons_of_ne hfirst]
        · rw [List.lookup_cons, List.lookup_cons, ih]

/-- An insertion answers its own name, and leaves all others. -/
theorem get?_insert (m : NameMap α) (name : String) (value : α) (other : String) :
    (m.insert name value).get? other = if other = name then some value else m.get? other :=
  lookup_insertEntry name value other m.entries

/-- An entry is changed or dropped by itself, whatever the others are. -/
theorem get?_filterMap (f : String → α → Option β) (m : NameMap α) (name : String) :
    (m.filterMap f).get? name = (m.get? name).bind (f name) := by
  apply Option.ext
  intro value
  simp only [get?_eq_some_iff, filterMap, List.mem_filterMap, Option.bind_eq_some_iff,
    Option.map_eq_some_iff, Prod.mk.injEq]
  constructor
  · rintro ⟨⟨_, held⟩, hmem, _, hvalue, rfl, rfl⟩
    exact ⟨held, hmem, hvalue⟩
  · rintro ⟨held, hmem, hvalue⟩
    exact ⟨(name, held), hmem, value, hvalue, rfl, rfl⟩

theorem get?_map (f : α → β) (m : NameMap α) (name : String) :
    (m.map f).get? name = (m.get? name).map f := by
  rw [map, get?_filterMap, Option.map_eq_bind]
  rfl

theorem get?_modify (m : NameMap α) (name : String) (f : α → α) (other : String) :
    (m.modify name f).get? other =
      (m.get? other).map fun value ↦ if other = name then f value else value := by
  rw [modify, get?_filterMap, Option.map_eq_bind]
  rfl

/-- An erased name has no answer, and no other loses its own. -/
theorem get?_erase (m : NameMap α) (name other : String) :
    (m.erase name).get? other = if other = name then none else m.get? other := by
  apply Option.ext
  intro value
  simp only [get?_eq_some_iff, erase, List.mem_filter, decide_eq_true_eq]
  by_cases h : other = name <;> simp [h, get?_eq_some_iff]

theorem contains_insert (m : NameMap α) (name : String) (value : α) (other : String) :
    (m.insert name value).contains other ↔ other = name ∨ m.contains other := by
  by_cases h : other = name <;> simp [contains, get?_insert, h]

theorem contains_erase (m : NameMap α) (name other : String) :
    (m.erase name).contains other ↔ other ≠ name ∧ m.contains other := by
  by_cases h : other = name <;> simp [contains, get?_erase, h]

@[simp] theorem contains_map (f : α → β) (m : NameMap α) (name : String) :
    (m.map f).contains name = m.contains name := by
  simp [contains, get?_map]

@[simp] theorem names_map (f : α → β) (m : NameMap α) : (m.map f).names = m.names := by
  simp [names, map, filterMap]

@[simp] theorem size_modify (m : NameMap α) (name : String) (f : α → α) :
    (m.modify name f).size = m.size := by
  simp [size, modify, filterMap]

@[simp] theorem contains_modify (m : NameMap α) (name : String) (f : α → α) (other : String) :
    (m.modify name f).contains other = m.contains other := by
  simp [contains, get?_modify]

end ServiceMesh.NameMap
