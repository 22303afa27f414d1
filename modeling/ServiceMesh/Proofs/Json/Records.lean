import Mathlib.Data.List.Forall2
import ServiceMesh.Proofs.Json.Reads
import ServiceMesh.Proofs.Json.Values

/-!
# Records that are read from objects

The members of an object are read one after another: each is looked up among the fields by its name
and changes the record by its value, or is passed over if no field has its name.  So the object is
read if each member fits, none that is known comes twice, and none that is required is missing.
What is written of a record is such an object.
-/

namespace ServiceMesh.Json

variable {α β : Type}

def Fits (fields : List (Field α)) (member : String × Written) (set : α → α) : Prop :=
  ∃ field, fields.find? (·.name = member.1) = some field ∧
    Reads field.fill (encoded member.2) set

def setAll (record : α) (sets : List (α → α)) : α := sets.foldl (fun record set ↦ set record) record

/-- To read a field is to read its value. -/
theorem reads_field {read : Reader β} {part : Bytes} {value : β} (h : Reads read part value)
    (name : String) (presence : Presence) (set : α → β → α) :
    Reads (field name presence read set).fill part fun record ↦ set record value where
  begins := h.begins
  read rest hrest := by
    simp only [field, h.read rest hrest, bind, Except.bind, pure, Except.pure]

/-- What a member of an object changes: what the field of its name makes of it, or nothing if there
is no such field. -/
inductive Fills (fields : List (Field α)) (entry : Entry) : (α → α) → Prop where
  | known {field : Field α} {set : α → α}
      (hfield : fields.find? (·.name = entry.key) = some field)
      (hfill : ∀ rest, Delimited rest →
        field.fill (entry.before ++ (entry.value ++ rest)) = .ok (set, rest)) :
      Fills fields entry set
  | unknown (hfield : fields.find? (·.name = entry.key) = none) (hvalue : Value entry.value) :
      Fills fields entry id

/-- The names of an object that are names of fields. -/
def knownKeys (fields : List (Field α)) (entries : List Entry) : List String :=
  (keys entries).filter (· ∈ fields.map Field.name)

theorem mem_names_of_find? {fields : List (Field α)} {name : String} {field : Field α}
    (h : fields.find? (·.name = name) = some field) : name ∈ fields.map Field.name := by
  have hname : field.name = name := by simpa using List.find?_some h
  exact hname ▸ List.mem_map_of_mem (List.mem_of_find?_eq_some h)

theorem not_mem_names_of_find? {fields : List (Field α)} {name : String}
    (h : fields.find? (·.name = name) = none) : name ∉ fields.map Field.name := by
  intro hmem
  obtain ⟨field, hfield, hname⟩ := List.mem_map.1 hmem
  exact List.find?_eq_none.1 h field hfield (by simpa using hname)

theorem knownKeys_cons_known {fields : List (Field α)} {entry : Entry} {field : Field α}
    (h : fields.find? (·.name = entry.key) = some field) (entries : List Entry) :
    knownKeys fields (entry :: entries) = entry.key :: knownKeys fields entries := by
  rw [knownKeys, keys, List.map_cons, List.filter_cons_of_pos (by simpa using mem_names_of_find? h)]
  rfl

theorem knownKeys_cons_unknown {fields : List (Field α)} {entry : Entry}
    (h : fields.find? (·.name = entry.key) = none) (entries : List Entry) :
    knownKeys fields (entry :: entries) = knownKeys fields entries := by
  have hname := not_mem_names_of_find? h
  rw [knownKeys, keys, List.map_cons, List.filter_cons_of_neg (by simpa using hname)]
  rfl

/-- Blanks before a member make no difference. -/
theorem members_append {gap : Bytes} (hgap : Blank gap) (fields : List (Field α)) (steps : Bytes)
    (first : Bool) (given : List String) (record : α) (input : Bytes) :
    members fields steps first given record (gap ++ input) =
      members fields steps first given record input := by
  cases steps with
  | nil => rfl
  | cons step steps => rw [members, members, nextMember_append hgap]

/-- The text of a member's name, and its colon. -/
theorem textBody_entry (entry : Entry) (rest : Bytes) :
    textBody (entry.tail ++ rest) =
      .ok (entry.key, entry.afterName ++ byte ':' :: (entry.toItem.text ++ rest)) := by
  rw [entry.tail_append]
  exact entry.spells.textBody _

/-- Members are read in their order, and the names that are known are kept, the last one first. -/
theorem members_entries {fields : List (Field α)} {entries : List Entry} {sets : List (α → α)}
    (h : List.Forall₂ (Fills fields) entries sets) (hnames : (knownKeys fields entries).Nodup)
    {given : List String} (hnew : ∀ name ∈ given, name ∉ knownKeys fields entries) {gap : Bytes}
    (hgap : Blank gap) (first : Bool) {steps : Bytes} (hsteps : entries.length < steps.length)
    (record : α) (rest : Bytes) :
    members fields steps first given record
        (listed first gap (entries.map fun entry ↦ entry.text) ++ byte '\x7d' :: rest) =
      .ok (((knownKeys fields entries).reverse ++ given, setAll record sets), rest) := by
  induction h generalizing given gap first steps record with
  | nil =>
    obtain _ | ⟨step, steps⟩ := steps
    · cases hsteps
    · simp only [List.map_nil, listed, members, nextMember_end hgap, bind, Except.bind, pure,
        Except.pure, knownKeys, keys, List.filter_nil, List.reverse_nil, List.nil_append, setAll,
        List.foldl_nil]
  | @cons entry set entries sets hentry hentries ih =>
    obtain _ | ⟨step, steps⟩ := steps
    · cases hsteps
    have hsteps := Nat.lt_of_succ_lt_succ hsteps
    have hafter := delimited_blank entry.blank_after (delimited_listed (delimited_brace rest)
      (entries.map fun entry ↦ entry.text))
    simp only [List.map_cons, listed, List.append_assoc, members, nextMember_member, bind,
      Except.bind, textBody_entry, colon_append entry.blank_afterName]
    cases hentry with
    | known hfield hfill =>
      rw [knownKeys_cons_known hfield] at hnames hnew ⊢
      obtain ⟨hname, hnames⟩ := List.nodup_cons.1 hnames
      have hfresh : entry.key ∉ given := fun hmem ↦ hnew entry.key hmem List.mem_cons_self
      have hlater : ∀ name ∈ entry.key :: given, name ∉ knownKeys fields entries := by
        intro name hmem hlater
        rcases List.mem_cons.1 hmem with rfl | hmem
        · exact hname hlater
        · exact hnew name hmem (List.mem_cons_of_mem _ hlater)
      have hmore := ih hnames hlater blank_nil false hsteps (set record)
      rw [← members_append entry.blank_after] at hmore
      simp only [hfield, if_neg hfresh, Item.text, List.append_assoc, hfill _ hafter, hmore,
        List.reverse_cons, List.singleton_append, setAll, List.foldl_cons]
    | unknown hfield hvalue =>
      rw [knownKeys_cons_unknown hfield] at hnames hnew ⊢
      have hskip := ((hvalue.passes hafter).append_blank entry.blank_before).skip_eq
      have hmore := ih hnames hnew blank_nil false hsteps record
      rw [← members_append entry.blank_after] at hmore
      simp only [hfield, Item.text, List.append_assoc, hskip, hmore, setAll, List.foldl_cons, id]

/-- An object of members that fit, in any order and any layout. -/
theorem reads_object {shape : ℕ → Shape α} {depth : ℕ} {entries : List Entry} {sets : List (α → α)}
    (h : List.Forall₂ (Fills (shape depth).fields) entries sets)
    (hnames : (knownKeys (shape depth).fields entries).Nodup)
    (hrequired : ∀ field ∈ (shape depth).fields, field.presence = .required →
      field.name ∈ keys entries) {gap : Bytes} (hgap : Blank gap) :
    Reads (record shape (depth + 1)) (objectText gap (entries.map Entry.toMember))
      (setAll (shape depth).blank sets) where
  begins := begins_cons (by decide) (by decide) _
  read rest _ := by
    have htexts : (entries.map Entry.toMember).map Member.text =
        entries.map fun entry ↦ entry.text := by
      rw [List.map_map]
      rfl
    have hsteps : entries.length < (byte '\x7b' ::
        (listed true gap (entries.map fun entry ↦ entry.text) ++ byte '\x7d' :: rest)).length := by
      have hlength := length_le_listed true gap (entries.map fun entry ↦ entry.text)
      simp only [List.length_cons, List.length_append, List.length_map] at hlength ⊢
      omega
    have hnew : ∀ name ∈ ([] : List String), name ∉ knownKeys (shape depth).fields entries :=
      fun name hmem ↦ by cases hmem
    have hmembers := members_entries h hnames hnew hgap true hsteps (shape depth).blank rest
    have hnone : (shape depth).fields.find? (fun field ↦ field.presence = .required ∧
        field.name ∉ (knownKeys (shape depth).fields entries).reverse ++ []) = none := by
      simp only [List.find?_eq_none, decide_eq_true_eq, not_and, List.append_nil,
        List.mem_reverse, not_not]
      intro field hfield hpresence
      have hname := List.mem_map_of_mem (f := Field.name) hfield
      exact List.mem_filter.2 ⟨hrequired field hfield hpresence, by simpa using hname⟩
    rw [objectText_append, htexts, record, skipBlanks_cons (by decide)]
    simp only [true_or, if_true, fromMembers, List.tail_cons, hmembers, bind, Except.bind, hnone,
      pure, Except.pure]

theorem fills_writtenEntry {fields : List (Field α)} {member : String × Written} {set : α → α}
    (h : Fits fields member set) : Fills fields (writtenEntry member) set := by
  obtain ⟨field, hfield, hfill⟩ := h
  exact .known hfield hfill.read

/-- An object that is written is read if its members fit and none that is required is missing. -/
theorem reads_record {shape : ℕ → Shape α} {depth : ℕ} {parts : List (String × Written)}
    {sets : List (α → α)} (h : List.Forall₂ (Fits (shape depth).fields) parts sets)
    (hnames : (parts.map Prod.fst).Nodup)
    (hrequired : ∀ field ∈ (shape depth).fields, field.presence = .required →
      field.name ∈ parts.map Prod.fst) :
    Reads (record shape (depth + 1)) (encoded (writeObject parts))
      (setAll (shape depth).blank sets) := by
  have hkeys : keys (parts.map writtenEntry) = parts.map Prod.fst := by
    rw [keys, List.map_map]
    rfl
  have hfills : List.Forall₂ (Fills (shape depth).fields) (parts.map writtenEntry) sets :=
    List.forall₂_map_left_iff.2 (h.imp fun _ _ ↦ fills_writtenEntry)
  have hmembers : (parts.map fun member ↦ (writtenEntry member).toMember) =
      (parts.map writtenEntry).map Entry.toMember := by
    rw [List.map_map]
    rfl
  rw [encoded_writeObject, hmembers]
  refine reads_object hfills ?_ (by rwa [hkeys]) blank_nil
  rw [knownKeys, hkeys]
  exact hnames.filter _

end ServiceMesh.Json
