import Mathlib.Data.List.DropRight
import ServiceMesh.Proofs.Json.Numbers

/-!
# The layout of sequences and objects

Blanks may stand around every value and around every name.  The parts of a sequence or an object
have commas between them, and its brackets may hold blanks alone.  What is written is laid out
without any blanks.
-/

namespace ServiceMesh.Json

def Blank (gap : Bytes) : Prop := ∀ b ∈ gap, isBlank b = true

instance (gap : Bytes) : Decidable (Blank gap) :=
  List.decidableBAll (fun b ↦ isBlank b = true) gap

theorem blank_nil : Blank [] := fun _ h ↦ by cases h

/-- What is skipped does not matter to what comes after it. -/
theorem skipBlanks_append {gap : Bytes} (h : Blank gap) (rest : Bytes) :
    skipBlanks (gap ++ rest) = skipBlanks rest := List.dropWhile_append_of_pos h

/-- Only blanks are skipped. -/
theorem skipBlanks_cons {b : UInt8} (h : isBlank b = false) (rest : Bytes) :
    skipBlanks (b :: rest) = b :: rest := by
  rw [skipBlanks, List.dropWhile_cons_of_neg (by simp [h])]

@[simp] theorem skipBlanks_skipBlanks (input : Bytes) :
    skipBlanks (skipBlanks input) = skipBlanks input :=
  List.dropWhile_idempotent isBlank input

theorem length_skipBlanks_le (input : Bytes) : (skipBlanks input).length ≤ input.length :=
  (List.dropWhile_sublist _).length_le

/-- Blanks do not go on with a number. -/
theorem delimited_blank {gap rest : Bytes} (hgap : Blank gap) (hrest : Delimited rest) :
    Delimited (gap ++ rest) := by
  cases gap with
  | nil => exact hrest
  | cons b gap =>
    have hb := hgap b List.mem_cons_self
    simp only [isBlank, Bool.or_eq_true, decide_eq_true_eq] at hb
    obtain ((rfl | rfl) | rfl) | rfl := hb
    all_goals exact delimited_cons (by decide) (by decide) (by decide) (by decide) _

theorem isBlank_of_isDigit {b : UInt8} (h : isDigit b = true) : isBlank b = false := by
  simp only [isBlank, Bool.or_eq_false_iff, decide_eq_false_iff_not]
  refine ⟨⟨⟨?_, ?_⟩, ?_⟩, ?_⟩ <;>
    · rintro rfl
      cases h

/-- The first byte is no blank and closes no sequence. -/
def Begins (text : Bytes) : Prop :=
  ∃ b more, text = b :: more ∧ isBlank b = false ∧ b ≠ byte ']'

theorem begins_cons {b : UInt8} (hblank : isBlank b = false) (hclosing : b ≠ byte ']')
    (more : Bytes) : Begins (b :: more) :=
  ⟨b, more, rfl, hblank, hclosing⟩

/-- There are no blanks to skip before a value that begins. -/
theorem Begins.skipBlanks_append {text : Bytes} (h : Begins text) (rest : Bytes) :
    skipBlanks (text ++ rest) = text ++ rest := by
  obtain ⟨b, more, rfl, hblank, -⟩ := h
  exact skipBlanks_cons hblank (more ++ rest)

def lead (first : Bool) (part : Bytes) : Bytes := if first then part else byte ',' :: part

/-- The parts with a comma between each two, or the given gap if there are none.  A comma stands
before the first of them as well if others came before. -/
def listed (first : Bool) (gap : Bytes) : List Bytes → Bytes
  | [] => gap
  | part :: parts => lead first part ++ listed false [] parts

/-- Each part takes a byte at least, so the bytes ahead are steps enough for them. -/
theorem length_le_listed (first : Bool) (gap : Bytes) (parts : List Bytes) :
    parts.length ≤ (listed first gap parts).length + 1 := by
  have hcontinued (parts : List Bytes) : parts.length ≤ (listed false [] parts).length := by
    induction parts with
    | nil => exact Nat.zero_le _
    | cons part parts ih =>
      simp only [listed, lead, Bool.false_eq_true, if_false, List.length_append, List.length_cons]
      omega
  cases parts with
  | nil => exact Nat.zero_le _
  | cons part parts =>
    have hparts := hcontinued parts
    rw [listed, List.length_append, List.length_cons]
    omega

/-- A comma or the closing bracket ends a number, whichever comes first. -/
theorem delimited_listed {b : UInt8} {rest : Bytes} (h : Delimited (b :: rest))
    (parts : List Bytes) : Delimited (listed false [] parts ++ b :: rest) := by
  cases parts with
  | nil => exact h
  | cons part parts => exact delimited_cons (by decide) (by decide) (by decide) (by decide) _

theorem delimited_bracket (rest : Bytes) : Delimited (byte ']' :: rest) :=
  delimited_cons (by decide) (by decide) (by decide) (by decide) rest

theorem delimited_brace (rest : Bytes) : Delimited (byte '\x7d' :: rest) :=
  delimited_cons (by decide) (by decide) (by decide) (by decide) rest

/-- A value with the blanks around it. -/
structure Item where
  before : Bytes
  value : Bytes
  after : Bytes
  blank_before : Blank before
  blank_after : Blank after

def Item.text (item : Item) : Bytes := item.before ++ item.value ++ item.after

/-- A name and a value, with the blanks around both.  The name is given as it is spelled. -/
structure Member extends Item where
  beforeName : Bytes
  name : Bytes
  afterName : Bytes
  blank_beforeName : Blank beforeName
  blank_afterName : Blank afterName

def Member.tail (member : Member) : Bytes :=
  member.name ++ byte '"' :: (member.afterName ++ byte ':' :: member.toItem.text)

theorem Member.tail_append (member : Member) (rest : Bytes) :
    member.tail ++ rest = member.name ++
      byte '"' :: (member.afterName ++ byte ':' :: (member.toItem.text ++ rest)) := by
  simp only [tail, List.append_assoc, List.cons_append]

def Member.text (member : Member) : Bytes := member.beforeName ++ byte '"' :: member.tail

/-- A sequence; the gap stands between its brackets if it is empty. -/
def sequenceText (gap : Bytes) (items : List Item) : Bytes :=
  byte '[' :: listed true gap (items.map Item.text) ++ [byte ']']

/-- An object; the gap stands between its braces if it is empty. -/
def objectText (gap : Bytes) (members : List Member) : Bytes :=
  byte '\x7b' :: listed true gap (members.map Member.text) ++ [byte '\x7d']

theorem sequenceText_append (gap : Bytes) (items : List Item) (rest : Bytes) :
    sequenceText gap items ++ rest =
      byte '[' :: (listed true gap (items.map Item.text) ++ byte ']' :: rest) := by
  simp only [sequenceText, List.cons_append, List.append_assoc, List.nil_append]

theorem objectText_append (gap : Bytes) (members : List Member) (rest : Bytes) :
    objectText gap members ++ rest =
      byte '\x7b' :: (listed true gap (members.map Member.text) ++ byte '\x7d' :: rest) := by
  simp only [objectText, List.cons_append, List.append_assoc, List.nil_append]

/-- A member whose name is known to spell a text. -/
structure Entry extends Member where
  key : String
  spells : Spells name (bytes key)

def keys (entries : List Entry) : List String := entries.map Entry.key

section Steps

variable {gap rest : Bytes} {first : Bool}

theorem nextElement_append (hgap : Blank gap) (input : Bytes) :
    nextElement first (gap ++ input) = nextElement first input := by
  rw [nextElement, nextElement, skipBlanks_append hgap]

theorem nextMember_append (hgap : Blank gap) (input : Bytes) :
    nextMember first (gap ++ input) = nextMember first input := by
  rw [nextMember, nextMember, skipBlanks_append hgap]

/-- An empty sequence may hold blanks. -/
theorem nextElement_end (hgap : Blank gap) :
    nextElement first (gap ++ byte ']' :: rest) = .ok (false, rest) := by
  rw [nextElement_append hgap, nextElement, skipBlanks_cons (by decide)]
  rfl

/-- At an element its value is next, whatever blanks stand before it. -/
theorem nextElement_item {item : Item} (h : Begins item.value) :
    nextElement first (lead first item.text ++ rest) =
      .ok (true, item.value ++ (item.after ++ rest)) := by
  have hvalue : skipBlanks (item.text ++ rest) = item.value ++ (item.after ++ rest) := by
    rw [Item.text, List.append_assoc, List.append_assoc, skipBlanks_append item.blank_before,
      h.skipBlanks_append]
  obtain ⟨b, more, hbytes, hblank, hclosing⟩ := h
  rw [hbytes, List.cons_append] at hvalue ⊢
  cases first with
  | true => simp only [lead, if_true, nextElement, hvalue, if_neg hclosing]
  | false =>
    have hcomma : byte ',' ≠ byte ']' := by decide
    simp only [lead, Bool.false_eq_true, if_false, List.cons_append, nextElement,
      skipBlanks_cons (show isBlank (byte ',') = false by decide), if_neg hcomma, if_true, hvalue,
      if_neg hclosing]

theorem nextMember_end (hgap : Blank gap) :
    nextMember first (gap ++ byte '\x7d' :: rest) = .ok (false, rest) := by
  rw [nextMember_append hgap, nextMember, skipBlanks_cons (by decide)]
  rfl

/-- At a member its name is next, whatever blanks stand before it. -/
theorem nextMember_member (member : Member) :
    nextMember first (lead first member.text ++ rest) = .ok (true, member.tail ++ rest) := by
  have hquote : skipBlanks (member.text ++ rest) = byte '"' :: (member.tail ++ rest) := by
    rw [Member.text, List.append_assoc, skipBlanks_append member.blank_beforeName, List.cons_append,
      skipBlanks_cons (by decide)]
  have hopening : expectByte (byte '"') (byte '"' :: (member.tail ++ rest)) =
      .ok (member.tail ++ rest) := rfl
  have hbrace : byte '"' ≠ byte '\x7d' := by decide
  cases first with
  | true =>
    simp only [lead, if_true, nextMember, hquote, if_neg hbrace, hopening, bind, Except.bind, pure,
      Except.pure]
  | false =>
    have hcomma : byte ',' ≠ byte '\x7d' := by decide
    simp only [lead, Bool.false_eq_true, if_false, List.cons_append, nextMember,
      skipBlanks_cons (show isBlank (byte ',') = false by decide), if_neg hcomma, if_true, hquote,
      hopening, bind, Except.bind, pure, Except.pure]

/-- Blanks may stand before a colon. -/
theorem colon_append (hgap : Blank gap) : colon (gap ++ byte ':' :: rest) = .ok rest := by
  rw [colon, skipBlanks_append hgap, skipBlanks_cons (by decide)]
  rfl

end Steps

/-- Written parts have commas between them and nothing else. -/
theorem encoded_separated (parts : List Written) :
    encoded (separated parts) = listed true [] (parts.map encoded) := by
  have hcons (part : Written) (parts : List Written) :
      encoded (separated (part :: parts)) =
        encoded part ++ listed false [] (parts.map encoded) := by
    induction parts generalizing part with
    | nil => exact (List.append_nil _).symm
    | cons next parts ih =>
      rw [separated, encoded_append, encoded_cons_ascii (by decide), ih]
      · rfl
      · simp
  cases parts with
  | nil => rfl
  | cons part parts => exact hcons part parts

def bareItem (value : Bytes) : Item := ⟨[], value, [], blank_nil, blank_nil⟩

@[simp] theorem bareItem_text (value : Bytes) : (bareItem value).text = value := by
  rw [Item.text, bareItem, List.nil_append, List.append_nil]

/-- A written sequence is one without any blanks. -/
theorem encoded_writeSequence (parts : List Written) :
    encoded (writeSequence parts) =
      sequenceText [] (parts.map fun part ↦ bareItem (encoded part)) := by
  rw [writeSequence, List.cons_append, encoded_cons_ascii (by decide), encoded_append,
    encoded_cons_ascii (by decide), encoded_nil, encoded_separated, sequenceText,
    List.map_map]
  simp only [Function.comp_def, bareItem_text, List.cons_append]

def writtenEntry (member : String × Written) : Entry where
  toItem := bareItem (encoded member.2)
  beforeName := []
  name := encoded (member.1.toList.flatMap writeChar)
  afterName := []
  blank_beforeName := blank_nil
  blank_afterName := blank_nil
  key := member.1
  spells := spells_written member.1

theorem encoded_writeMember (member : String × Written) :
    encoded (writeMember member.1 member.2) = (writtenEntry member).text := by
  rw [writeMember, encoded_append, encoded_writeText, encoded_cons_ascii (by decide), Member.text,
    Member.tail, writtenEntry, bareItem_text]
  simp only [List.cons_append, List.append_assoc, List.nil_append]

/-- A written object is one without any blanks, and its names are spelled as texts are written. -/
theorem encoded_writeObject (parts : List (String × Written)) :
    encoded (writeObject parts) =
      objectText [] (parts.map fun member ↦ (writtenEntry member).toMember) := by
  rw [writeObject, List.cons_append, encoded_cons_ascii (by decide), encoded_append,
    encoded_cons_ascii (by decide), encoded_nil, encoded_separated, objectText,
    List.map_map, List.map_map]
  simp only [Function.comp_def, encoded_writeMember, List.cons_append]

end ServiceMesh.Json
