import ServiceMesh.Proofs.Json.Orderly
import ServiceMesh.Proofs.Json.Records

/-!
# Texts that are accepted part by part

A sequence, an object or a record in a sequence is accepted only if each of its values is accepted
by the reader that is meant for it.  This holds in any layout and for any well-formed values, since
a value that is accepted is read up to its end and the next part is met where it stands.
-/

namespace ServiceMesh.Json

variable {α β : Type}

/-- Some value is read where the text stands, if what follows does not go on with a number. -/
def Accepts (read : Reader α) (text : Bytes) : Prop :=
  ∃ rest value rest', Delimited rest ∧ read (text ++ rest) = .ok (value, rest')

section Whole

variable {read : Reader α} {before text after : Bytes} {value : α}

/-- A whole text is read with the blanks around it. -/
theorem Reads.readAll_blanks (h : Reads read text value) (hread : Orderly read)
    (hbefore : Blank before) (hafter : Blank after) :
    Json.readAll read (before ++ (text ++ after)) = .ok value := by
  have hdelimited := delimited_blank hafter delimited_nil
  have hblanks := skipBlanks_append hafter []
  rw [List.append_nil] at hdelimited hblanks
  have hvalue : read (before ++ (text ++ after)) = .ok (value, after) := by
    rw [← hread.blanks, skipBlanks_append hbefore, h.begins.skipBlanks_append,
      h.read after hdelimited]
  have hnil : skipBlanks after = [] := hblanks
  simp only [Json.readAll, hvalue, bind, Except.bind, hnil, if_true, pure, Except.pure]

/-- A whole text is accepted, blanks around it left aside, if it is read at all. -/
theorem accepts_of_readAll (hread : Orderly read) (hbefore : Blank before) (htext : Begins text)
    (hafter : Blank after) (h : readAll read (before ++ (text ++ after)) = .ok value) :
    Accepts read text := by
  obtain ⟨⟨held, rest⟩, hheld, -⟩ := bind_eq_ok_iff.1 h
  have hdelimited := delimited_blank hafter delimited_nil
  rw [List.append_nil] at hdelimited
  rw [← hread.blanks, skipBlanks_append hbefore, htext.skipBlanks_append] at hheld
  exact ⟨after, held, rest, hdelimited, hheld⟩

end Whole

/-- A member whose value its field reads is read with the blanks before it. -/
theorem fills_of_reads {fields : List (Field α)} {entry : Entry} {field : Field α} {set : α → α}
    (hfield : fields.find? (·.name = entry.key) = some field) (hfill : Orderly field.fill)
    (hreads : Reads field.fill entry.value set) : Fills fields entry set := by
  refine .known hfield fun rest hrest ↦ ?_
  rw [← hfill.blanks, skipBlanks_append entry.blank_before, hreads.begins.skipBlanks_append,
    hreads.read rest hrest]

theorem accepts_of_field {read : Reader β} {name : String} {presence : Presence}
    {set : α → β → α} {text : Bytes} (h : Accepts (field name presence read set).fill text) :
    Accepts read text := by
  obtain ⟨rest, change, rest', hrest, h⟩ := h
  obtain ⟨value, hread, -⟩ := field_eq_ok h
  exact ⟨rest, value, rest', hrest, hread⟩

/-- Blanks ahead are no part of a run. -/
theorem ElementsRun.of_append {read : Reader α} {gap : Bytes} (hgap : Blank gap) {first : Bool}
    {input rest : Bytes} {values : List α} (h : ElementsRun read first (gap ++ input) values rest) :
    ElementsRun read first input values rest := by
  cases h with
  | close hnext => exact .close (nextElement_append hgap input ▸ hnext)
  | element hnext hread hmore => exact .element (nextElement_append hgap input ▸ hnext) hread hmore

/-- As each element is read up to its end, the next one is met where it stands. -/
theorem ElementsRun.accepts {read : Reader α} (hread : Orderly read) {items : List Item}
    (hitems : ∀ item ∈ items, Value item.value) {gap : Bytes} {first : Bool} {rest rest' : Bytes}
    {values : List α}
    (h : ElementsRun read first (listed first gap (items.map Item.text) ++ byte ']' :: rest) values
      rest') : ∀ item ∈ items, Accepts read item.value := by
  induction items generalizing first gap values with
  | nil => exact fun item hmem ↦ by cases hmem
  | cons item items ih =>
    obtain ⟨hitem, hitems⟩ := List.forall_mem_cons.1 hitems
    rw [List.map_cons, listed, List.append_assoc] at h
    have hafter := delimited_blank item.blank_after
      (delimited_listed (delimited_bracket rest) (items.map Item.text))
    cases h with
    | close hnext =>
      rw [nextElement_item hitem.begins] at hnext
      cases hnext
    | element hnext hvalue hmore =>
      rw [nextElement_item hitem.begins] at hnext
      cases hnext
      rw [hread.rest_eq hitem hafter hvalue] at hmore
      exact List.forall_mem_cons.2
        ⟨⟨_, _, _, hafter, hvalue⟩, ih hitems (hmore.of_append item.blank_after)⟩

/-- A sequence is accepted only if each of its elements is. -/
theorem accepts_items {read : Reader α} (hread : Orderly read) {items : List Item}
    (hitems : ∀ item ∈ items, Value item.value) {gap : Bytes} {depth : ℕ}
    (h : Accepts (sequence depth read) (sequenceText gap items)) :
    depth ≠ 0 ∧ ∀ item ∈ items, Accepts read item.value := by
  obtain ⟨rest, values, rest', -, h⟩ := h
  rw [sequenceText_append] at h
  obtain ⟨hdepth, ahead, hblanks, hrun⟩ := sequence_eq_ok h
  rw [skipBlanks_cons (by decide)] at hblanks
  obtain ⟨-, rfl⟩ := List.cons.inj hblanks
  exact ⟨hdepth, hrun.accepts hread hitems⟩

theorem accepts_sequence {read : Reader α} (hread : Orderly read) {parts : List Written}
    (hparts : ∀ part ∈ parts, Value (encoded part)) {depth : ℕ}
    (h : Accepts (sequence depth read) (encoded (writeSequence parts))) :
    depth ≠ 0 ∧ ∀ part ∈ parts, Accepts read (encoded part) := by
  rw [encoded_writeSequence] at h
  have hitems : ∀ item ∈ parts.map fun part ↦ bareItem (encoded part), Value item.value :=
    List.forall_mem_map.2 hparts
  obtain ⟨hdepth, haccepts⟩ := accepts_items hread hitems h
  exact ⟨hdepth, fun part hmem ↦ haccepts _ (List.mem_map_of_mem hmem)⟩

theorem MembersRun.of_append {fields : List (Field α)} {gap : Bytes} (hgap : Blank gap)
    {first : Bool} {input rest : Bytes} {given given' : List String} {record record' : α}
    (h : MembersRun fields first given record (gap ++ input) given' record' rest) :
    MembersRun fields first given record input given' record' rest := by
  have hnext : nextMember first (gap ++ input) = nextMember first input :=
    nextMember_append hgap input
  cases h with
  | close h => exact .close (hnext ▸ h)
  | unknown h hname hcolon hfield hskip hmore =>
    exact .unknown (hnext ▸ h) hname hcolon hfield hskip hmore
  | known h hname hcolon hfield hfresh hfill hmore =>
    exact .known (hnext ▸ h) hname hcolon hfield hfresh hfill hmore

/-- At a member its name is read, and its value is next. -/
theorem entry_ahead {entry : Entry} {first : Bool} {name : String}
    {ahead named body rest : Bytes}
    (hnext : nextMember first (lead first entry.text ++ rest) = .ok (true, ahead))
    (hname : textBody ahead = .ok (name, named)) (hcolon : colon named = .ok body) :
    name = entry.key ∧ body = entry.before ++ (entry.value ++ (entry.after ++ rest)) := by
  rw [nextMember_member] at hnext
  cases hnext
  rw [textBody_entry] at hname
  cases hname
  rw [colon_append entry.blank_afterName] at hcolon
  cases hcolon
  exact ⟨rfl, by rw [Item.text, List.append_assoc, List.append_assoc]⟩

/-- What a run does at a member: it passes over it, or fills in a field whose name is new. -/
inductive AtEntry (fields : List (Field α)) (entry : Entry) (given : List String) (record : α) :
    List String → α → Prop where
  | unknown (hfield : fields.find? (·.name = entry.key) = none) :
      AtEntry fields entry given record given record
  | known {field : Field α} {set : α → α}
      (hfield : fields.find? (·.name = entry.key) = some field) (hfresh : entry.key ∉ given)
      (haccepts : Accepts field.fill entry.value) :
      AtEntry fields entry given record (entry.key :: given) (set record)

/-- At a member the run goes on where the layout says that its value ends. -/
theorem MembersRun.atEntry {fields : List (Field α)}
    (hfields : ∀ field ∈ fields, Orderly field.fill) {entry : Entry} (hvalue : Value entry.value)
    {first : Bool} {given given' : List String} {record record' : α} {rest rest' : Bytes}
    (hrest : Delimited (entry.after ++ rest))
    (h : MembersRun fields first given record (lead first entry.text ++ rest) given' record'
      rest') :
    ∃ met filled, AtEntry fields entry given record met filled ∧
      MembersRun fields false met filled rest given' record' rest' := by
  cases h with
  | close hnext =>
    rw [nextMember_member] at hnext
    cases hnext
  | unknown hnext hname hcolon hfield hskip hmore =>
    obtain ⟨rfl, rfl⟩ := entry_ahead hnext hname hcolon
    have hmiddle := (Passes.of_skip hskip).unique
      ((hvalue.passes hrest).append_blank entry.blank_before)
    rw [hmiddle] at hmore
    exact ⟨given, record, .unknown hfield, hmore.of_append entry.blank_after⟩
  | known hnext hname hcolon hfield hfresh hfill hmore =>
    obtain ⟨rfl, rfl⟩ := entry_ahead hnext hname hcolon
    have horderly := hfields _ (List.mem_of_find?_eq_some hfield)
    rw [← horderly.blanks, skipBlanks_append entry.blank_before,
      hvalue.begins.skipBlanks_append] at hfill
    rw [horderly.rest_eq hvalue hrest hfill] at hmore
    exact ⟨_, _, .known hfield hfresh ⟨_, _, _, hrest, hfill⟩,
      hmore.of_append entry.blank_after⟩

/-- The names that are given in a run are those that the object shows and the fields know, and none
of them comes twice. -/
theorem MembersRun.accepts {fields : List (Field α)}
    (hfields : ∀ field ∈ fields, Orderly field.fill) {entries : List Entry}
    (hvalues : ∀ entry ∈ entries, Value entry.value) {gap : Bytes} (hgap : Blank gap) {first : Bool}
    {given given' : List String} {record record' : α} {rest rest' : Bytes}
    (h : MembersRun fields first given record
      (listed first gap (entries.map fun entry ↦ entry.text) ++ byte '\x7d' :: rest) given' record'
      rest') :
    given' = (knownKeys fields entries).reverse ++ given ∧
      (knownKeys fields entries).Nodup ∧ (∀ name ∈ given, name ∉ knownKeys fields entries) ∧
      ∀ entry ∈ entries, ∀ field, fields.find? (·.name = entry.key) = some field →
        Accepts field.fill entry.value := by
  induction entries generalizing first gap given record with
  | nil =>
    rw [List.map_nil, listed] at h
    cases h with
    | close hnext => simp [knownKeys, keys]
    | unknown hnext => rw [nextMember_end hgap] at hnext; cases hnext
    | known hnext => rw [nextMember_end hgap] at hnext; cases hnext
  | cons entry entries ih =>
    obtain ⟨hentry, hvalues⟩ := List.forall_mem_cons.1 hvalues
    rw [List.map_cons, listed, List.append_assoc] at h
    have hafter := delimited_blank entry.blank_after
      (delimited_listed (delimited_brace rest) (entries.map fun entry ↦ entry.text))
    obtain ⟨met, filled, hat, hmore⟩ := h.atEntry hfields hentry hafter
    obtain ⟨hgiven, hnames, hnew, haccepts⟩ := ih hvalues blank_nil hmore
    cases hat with
    | unknown hfield =>
      rw [knownKeys_cons_unknown hfield]
      refine ⟨hgiven, hnames, hnew, List.forall_mem_cons.2 ⟨fun field hsome ↦ ?_, haccepts⟩⟩
      rw [hfield] at hsome
      cases hsome
    | known hfield hfresh haccepted =>
      obtain ⟨hname, hnew⟩ := List.forall_mem_cons.1 hnew
      rw [knownKeys_cons_known hfield]
      refine ⟨?_, List.nodup_cons.2 ⟨hname, hnames⟩, fun name hmem hknown ↦ ?_,
        List.forall_mem_cons.2 ⟨fun field' hsome ↦ ?_, haccepts⟩⟩
      · rw [hgiven, List.reverse_cons, List.append_assoc, List.singleton_append]
      · rcases List.mem_cons.1 hknown with rfl | hknown
        · exact hfresh hmem
        · exact hnew name hmem hknown
      · rw [hfield] at hsome
        cases hsome
        exact haccepted

/-- An object is accepted as a record only if no member that is known comes twice, none that is
required is missing, and each that is known is accepted by its field. -/
theorem accepts_object {shape : ℕ → Shape α} {depth : ℕ}
    (hfields : ∀ depth, ∀ field ∈ (shape depth).fields, Orderly field.fill) {entries : List Entry}
    (hvalues : ∀ entry ∈ entries, Value entry.value) {gap : Bytes} (hgap : Blank gap)
    (h : Accepts (record shape depth) (objectText gap (entries.map Entry.toMember))) :
    ∃ inner, depth = inner + 1 ∧ (knownKeys (shape inner).fields entries).Nodup ∧
      (∀ field ∈ (shape inner).fields, field.presence = .required → field.name ∈ keys entries) ∧
      ∀ entry ∈ entries, ∀ field, (shape inner).fields.find? (·.name = entry.key) = some field →
        Accepts field.fill entry.value := by
  obtain ⟨rest, value, rest', -, h⟩ := h
  have htexts : (entries.map Entry.toMember).map Member.text =
      entries.map fun entry ↦ entry.text := by
    rw [List.map_map]
    rfl
  rw [objectText_append, htexts] at h
  obtain ⟨inner, ahead, hdepth, ⟨hblanks, given, hrun, hrequired⟩ | ⟨hblanks, -⟩⟩ := record_eq_ok h
  · rw [skipBlanks_cons (by decide)] at hblanks
    obtain ⟨-, rfl⟩ := List.cons.inj hblanks
    obtain ⟨rfl, hnames, -, haccepts⟩ := hrun.accepts (hfields inner) hvalues hgap
    refine ⟨inner, hdepth, hnames, fun field hfield hpresence ↦ ?_, haccepts⟩
    have hname := hrequired field hfield hpresence
    rw [List.append_nil, List.mem_reverse] at hname
    exact (List.mem_filter.1 hname).1
  · rw [skipBlanks_cons (by decide)] at hblanks
    exact absurd (List.cons.inj hblanks).1 (by decide)

/-- The same of an object that is written. -/
theorem accepts_record {shape : ℕ → Shape α} {depth : ℕ}
    (hfields : ∀ depth, ∀ field ∈ (shape depth).fields, Orderly field.fill)
    {parts : List (String × Written)} (hparts : ∀ member ∈ parts, Value (encoded member.2))
    (h : Accepts (record shape depth) (encoded (writeObject parts))) :
    ∃ inner, depth = inner + 1 ∧ ∀ member ∈ parts, ∀ field,
      (shape inner).fields.find? (·.name = member.1) = some field →
        Accepts field.fill (encoded member.2) := by
  have hmembers : (parts.map fun member ↦ (writtenEntry member).toMember) =
      (parts.map writtenEntry).map Entry.toMember := by
    rw [List.map_map]
    rfl
  have hvalues : ∀ entry ∈ parts.map writtenEntry, Value entry.value :=
    List.forall_mem_map.2 hparts
  rw [encoded_writeObject, hmembers] at h
  obtain ⟨inner, hdepth, -, -, haccepts⟩ := accepts_object hfields hvalues blank_nil h
  exact ⟨inner, hdepth, fun member hmem ↦ haccepts _ (List.mem_map_of_mem hmem)⟩

theorem FieldsRun.of_append {fields : List (Field α)} {gap : Bytes} (hgap : Blank gap) {given : ℕ}
    {record record' : α} {input rest : Bytes}
    (h : FieldsRun fields given record (gap ++ input) record' rest) :
    FieldsRun fields given record input record' rest := by
  have hnext : nextElement (given = 0) (gap ++ input) = nextElement (given = 0) input :=
    nextElement_append hgap input
  cases h with
  | close hclose => exact .close (skipBlanks_append hgap input ▸ hclose)
  | omitted h => exact .omitted (hnext ▸ h)
  | field h hfill hmore => exact .field (hnext ▸ h) hfill hmore

/-- The fields of a sequence are met in their order, as far as there are elements. -/
theorem FieldsRun.accepts {fields : List (Field α)}
    (hfields : ∀ field ∈ fields, Orderly field.fill) {items : List Item}
    (hitems : ∀ item ∈ items, Value item.value) {gap : Bytes} {given : ℕ} {record record' : α}
    {rest rest' : Bytes}
    (h : FieldsRun fields given record
      (listed (given = 0) gap (items.map Item.text) ++ byte ']' :: rest) record' rest') :
    ∀ part ∈ fields.zip items, Accepts part.1.fill part.2.value := by
  induction fields generalizing items gap given record with
  | nil => exact fun part hmem ↦ by cases hmem
  | cons field fields ih =>
    obtain ⟨hfield, hfields⟩ := List.forall_mem_cons.1 hfields
    cases items with
    | nil => exact fun part hmem ↦ by cases hmem
    | cons item items =>
      obtain ⟨hitem, hitems⟩ := List.forall_mem_cons.1 hitems
      rw [List.map_cons, listed, List.append_assoc] at h
      have hafter := delimited_blank item.blank_after
        (delimited_listed (delimited_bracket rest) (items.map Item.text))
      cases h with
      | omitted hnext =>
        rw [nextElement_item hitem.begins] at hnext
        cases hnext
      | field hnext hfill hmore =>
        rw [nextElement_item hitem.begins] at hnext
        cases hnext
        rw [hfield.rest_eq hitem hafter hfill] at hmore
        have hlater : decide (given + 1 = 0) = false := rfl
        have hmore := hmore.of_append item.blank_after
        rw [← hlater] at hmore
        exact List.forall_mem_cons.2 ⟨⟨_, _, _, hafter, hfill⟩, ih hfields hitems hmore⟩

/-- A sequence is accepted as a record only if each element is accepted by its field. -/
theorem accepts_fields {shape : ℕ → Shape α} {depth : ℕ}
    (hfields : ∀ depth, ∀ field ∈ (shape depth).fields, Orderly field.fill) {items : List Item}
    (hitems : ∀ item ∈ items, Value item.value) {gap : Bytes}
    (h : Accepts (record shape depth) (sequenceText gap items)) :
    ∃ inner, depth = inner + 1 ∧
      ∀ part ∈ (shape inner).fields.zip items, Accepts part.1.fill part.2.value := by
  obtain ⟨rest, value, rest', -, h⟩ := h
  rw [sequenceText_append] at h
  obtain ⟨inner, ahead, hdepth, ⟨hblanks, -⟩ | ⟨hblanks, hrun⟩⟩ := record_eq_ok h
  · rw [skipBlanks_cons (by decide)] at hblanks
    exact absurd (List.cons.inj hblanks).1 (by decide)
  · rw [skipBlanks_cons (by decide)] at hblanks
    obtain ⟨-, rfl⟩ := List.cons.inj hblanks
    exact ⟨inner, hdepth, hrun.accepts (hfields inner) hitems⟩

inductive HasPart (names : List String) (name : String) : Bytes → Bytes → Prop where
  | member {gap : Bytes} {entries : List Entry} {entry : Entry} (hgap : Blank gap)
      (hvalues : ∀ entry ∈ entries, Value entry.value) (hentry : entry ∈ entries)
      (hkey : entry.key = name) :
      HasPart names name (objectText gap (entries.map Entry.toMember)) entry.value
  | item {gap : Bytes} {items : List Item} {item : Item} (hgap : Blank gap)
      (hitems : ∀ item ∈ items, Value item.value) (hitem : (name, item) ∈ names.zip items) :
      HasPart names name (sequenceText gap items) item.value

theorem HasPart.begins {names : List String} {name : String} {text part : Bytes}
    (h : HasPart names name text part) : Begins text := by
  cases h <;> exact begins_cons (by decide) (by decide) _

/-- Whichever form a record comes in, what stands for a field has to be accepted by that field. -/
theorem accepts_part {shape : ℕ → Shape α} {depth : ℕ} {names : List String}
    (hnames : ∀ depth, (shape depth).fields.map Field.name = names)
    (hfields : ∀ depth, ∀ field ∈ (shape depth).fields, Orderly field.fill) {name : String}
    (hname : name ∈ names) {text part : Bytes} (hpart : HasPart names name text part)
    (h : Accepts (record shape depth) text) :
    ∃ inner, depth = inner + 1 ∧
      ∃ field ∈ (shape inner).fields, field.name = name ∧ Accepts field.fill part := by
  cases hpart with
  | @member gap entries entry hgap hvalues hentry hkey =>
    obtain ⟨inner, hdepth, -, -, haccepts⟩ := accepts_object hfields hvalues hgap h
    refine ⟨inner, hdepth, ?_⟩
    cases hfield : (shape inner).fields.find? (·.name = entry.key) with
    | none =>
      rw [← hnames inner, ← hkey] at hname
      exact absurd hname (not_mem_names_of_find? hfield)
    | some field =>
      have hfound : field.name = entry.key := by simpa using List.find?_some hfield
      exact ⟨field, List.mem_of_find?_eq_some hfield, hfound.trans hkey,
        haccepts entry hentry field hfield⟩
  | @item gap items item hgap hitems hitem =>
    obtain ⟨inner, hdepth, haccepts⟩ := accepts_fields hfields hitems h
    rw [← hnames inner, List.zip_map_left] at hitem
    obtain ⟨part, hmem, hpart⟩ := List.mem_map.1 hitem
    obtain ⟨hfound, rfl⟩ := Prod.mk.inj hpart
    exact ⟨inner, hdepth, part.1, (List.of_mem_zip hmem).1, hfound, haccepts part hmem⟩

end ServiceMesh.Json
