/-!
# Maps from names

A `NameMap` holds its entries in strictly ascending order of their names, by code point.  Two maps
with the same entries are therefore equal, and listing a map needs no sorting.  Services, node ids,
link targets and metadata are all kept this way.
-/

namespace ServiceMesh

/-- A finite map from names, its entries in strictly ascending order. -/
structure NameMap (α : Type) where
  entries : List (String × α)
  ascending : entries.Pairwise (fun a b ↦ a.1 < b.1)
  deriving DecidableEq

namespace NameMap

variable {α β : Type}

def empty : NameMap α := ⟨[], .nil⟩

instance : EmptyCollection (NameMap α) := ⟨empty⟩

instance : Inhabited (NameMap α) := ⟨empty⟩

def get? (m : NameMap α) (name : String) : Option α := m.entries.lookup name

def contains (m : NameMap α) (name : String) : Bool := (m.get? name).isSome

def names (m : NameMap α) : List String := m.entries.map Prod.fst

def values (m : NameMap α) : List α := m.entries.map Prod.snd

def size (m : NameMap α) : Nat := m.entries.length

def isEmpty (m : NameMap α) : Bool := m.entries.isEmpty

/-- Puts an entry at its place among ascending entries, over an entry of the same name. -/
def insertEntry (name : String) (value : α) : List (String × α) → List (String × α)
  | [] => [(name, value)]
  | head :: rest =>
    if name < head.1 then (name, value) :: head :: rest
    else if name = head.1 then (name, value) :: rest
    else head :: insertEntry name value rest

theorem mem_insertEntry {name : String} {value : α} {entry : String × α}
    {entries : List (String × α)} (h : entry ∈ insertEntry name value entries) :
    entry = (name, value) ∨ entry ∈ entries := by
  induction entries with
  | nil => exact .inl (List.mem_singleton.1 h)
  | cons head rest ih =>
    unfold insertEntry at h
    split at h
    · exact List.mem_cons.1 h
    · split at h
      · exact (List.mem_cons.1 h).imp_right (List.mem_cons_of_mem _)
      · rcases List.mem_cons.1 h with h | h
        · exact .inr (h ▸ List.mem_cons_self)
        · exact (ih h).imp_right (List.mem_cons_of_mem _)

theorem pairwise_insertEntry (name : String) (value : α) {entries : List (String × α)}
    (h : entries.Pairwise (fun a b ↦ a.1 < b.1)) :
    (insertEntry name value entries).Pairwise (fun a b ↦ a.1 < b.1) := by
  induction entries with
  | nil => exact List.pairwise_singleton _ _
  | cons head rest ih =>
    have hhead := (List.pairwise_cons.1 h).1
    have hrest := (List.pairwise_cons.1 h).2
    unfold insertEntry
    split
    · next hlt =>
      exact List.pairwise_cons.2 ⟨fun entry hmem ↦ (List.mem_cons.1 hmem).elim
        (fun heq ↦ heq ▸ hlt) (fun hmem ↦ String.lt_trans hlt (hhead entry hmem)), h⟩
    · next hlt =>
      split
      · next heq => exact List.pairwise_cons.2 ⟨fun entry hmem ↦ heq ▸ hhead entry hmem, hrest⟩
      · next hne =>
        have hgt : head.1 < name := String.not_le.1 fun hle ↦
          hne (String.le_antisymm hle (String.not_lt.1 hlt))
        exact List.pairwise_cons.2 ⟨fun entry hmem ↦ (mem_insertEntry hmem).elim
          (fun heq ↦ heq ▸ hgt) (hhead entry), ih hrest⟩

def insert (m : NameMap α) (name : String) (value : α) : NameMap α :=
  ⟨insertEntry name value m.entries, pairwise_insertEntry name value m.ascending⟩

/-- The map of a list of entries; of two entries of one name the later one counts. -/
def ofList (entries : List (String × α)) : NameMap α :=
  entries.foldl (fun m entry ↦ m.insert entry.1 entry.2) empty

/-- Changes every value, or drops its entry. -/
def filterMap (f : String → α → Option β) (m : NameMap α) : NameMap β where
  entries := m.entries.filterMap fun entry ↦ (f entry.1 entry.2).map (entry.1, ·)
  ascending := m.ascending.filterMap _ fun a a' h b hb b' hb' ↦ by
    obtain ⟨_, _, rfl⟩ := Option.map_eq_some_iff.1 hb
    obtain ⟨_, _, rfl⟩ := Option.map_eq_some_iff.1 hb'
    exact h

def map (f : α → β) (m : NameMap α) : NameMap β :=
  m.filterMap fun _ value ↦ some (f value)

def erase (m : NameMap α) (name : String) : NameMap α :=
  ⟨m.entries.filter (·.1 ≠ name), m.ascending.filter _⟩

/-- Changes the value of a name that is present. -/
def modify (m : NameMap α) (name : String) (f : α → α) : NameMap α :=
  m.filterMap fun other value ↦ some (if other = name then f value else value)

end NameMap

/-- A set of names, listed in ascending order. -/
abbrev NameSet := NameMap Unit

namespace NameSet

def ofList (names : List String) : NameSet := NameMap.ofList (names.map (·, ()))

/-- Adds names; those that are present stay. -/
def addAll (s : NameSet) (names : List String) : NameSet :=
  names.foldl (fun s name ↦ s.insert name ()) s

end NameSet

end ServiceMesh
