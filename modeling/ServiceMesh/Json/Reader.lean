import ServiceMesh.Json.Scan

/-!
# Readers of typed values

A reader takes one value of its type off the bytes ahead.  A record is read from an object, whose
unknown members are passed over, or from a sequence of its fields in order.  Readers of records,
sequences and variants know how many more arrays and objects may be opened.
-/

namespace ServiceMesh.Json

abbrev Reader (α : Type) := Bytes → Except Fault (α × Bytes)

variable {α : Type}

/-- The fault of a value of the wrong kind, which is itself read first if it is a simple one. -/
def unexpected (wanted : Wanted) : Reader α
  | [] => .error .truncated
  | b :: rest =>
    if b = byte 'n' then do
      let _ ← expectWord [byte 'u', byte 'l', byte 'l'] rest
      throw (.wrongKind .null wanted)
    else if b = byte 't' then do
      let _ ← expectWord [byte 'r', byte 'u', byte 'e'] rest
      throw (.wrongKind (.boolean true) wanted)
    else if b = byte 'f' then do
      let _ ← expectWord [byte 'a', byte 'l', byte 's', byte 'e'] rest
      throw (.wrongKind (.boolean false) wanted)
    else if b = byte '-' ∨ isDigit b then do
      match (← number (b :: rest)).1 with
      | .integer value => throw (.wrongKind (.integer value) wanted)
      | .real negative magnitude => throw (.wrongKind (.real negative magnitude) wanted)
    else if b = byte '"' then do
      let (text, _) ← textBody rest
      throw (.wrongKind (.text text) wanted)
    else if b = byte '[' then .error (.wrongKind .sequence wanted)
    else if b = byte '\x7b' then .error (.wrongKind .map wanted)
    else .error .malformed

def text : Reader String := fun input ↦
  match skipBlanks input with
  | [] => .error .truncated
  | b :: rest => if b = byte '"' then textBody rest else unexpected .text (b :: rest)

/-- A text, or null for none. -/
def optionalText : Reader (Option String) := fun input ↦
  match skipBlanks input with
  | [] => .error .truncated
  | b :: rest =>
    if b = byte 'n' then do
      return (none, ← expectWord [byte 'u', byte 'l', byte 'l'] rest)
    else do
      let (held, rest) ← text (b :: rest)
      return (some held, rest)

def unit : Reader Unit := fun input ↦
  match skipBlanks input with
  | [] => .error .truncated
  | b :: rest =>
    if b = byte 'n' then do
      return ((), ← expectWord [byte 'u', byte 'l', byte 'l'] rest)
    else unexpected .unit (b :: rest)

/-- An integer between two bounds. -/
def integer (wanted : Wanted) (low high : Int) : Reader Int := fun input ↦
  match skipBlanks input with
  | [] => .error .truncated
  | b :: rest =>
    if b = byte '-' ∨ isDigit b then do
      match ← number (b :: rest) with
      | (.integer value, rest) =>
        if low ≤ value ∧ value ≤ high then return (value, rest)
        else throw (.outOfRange value wanted)
      | (.real negative magnitude, _) => throw (.wrongKind (.real negative magnitude) wanted)
    else unexpected wanted (b :: rest)

def int64 : Reader Int64 := fun input ↦ do
  let (value, rest) ← integer .metric Int64.minValue.toInt Int64.maxValue.toInt input
  return (Int64.ofInt value, rest)

def uint64 : Reader UInt64 := fun input ↦ do
  let (value, rest) ← integer .depth 0 (UInt64.size - 1) input
  return (UInt64.ofNat value.toNat, rest)

/-- Goes on to the next element of a sequence.  At the closing bracket there is none, and the bytes
after the bracket are returned. -/
def nextElement (first : Bool) (input : Bytes) : Except Fault (Bool × Bytes) :=
  match skipBlanks input with
  | [] => .error .truncated
  | b :: rest =>
    if b = byte ']' then .ok (false, rest)
    else if first then .ok (true, b :: rest)
    else if b = byte ',' then
      match skipBlanks rest with
      | [] => .error .truncated
      | c :: rest => if c = byte ']' then .error .malformed else .ok (true, c :: rest)
    else .error .malformed

/-- The elements up to the closing bracket, which takes a step of its own. -/
def elements (read : Reader α) : (steps : Bytes) → (first : Bool) → Reader (List α)
  | [], _, _ => .error .truncated
  | _ :: steps, first, input => do
    match ← nextElement first input with
    | (false, rest) => return ([], rest)
    | (true, rest) =>
      let (value, rest) ← read rest
      let (more, rest) ← elements read steps false rest
      return (value :: more, rest)

/-- A sequence.  `read` may open `depth` arrays and objects less one. -/
def sequence (depth : Nat) (read : Reader α) : Reader (List α) := fun input ↦
  match skipBlanks input with
  | [] => .error .truncated
  | b :: rest =>
    if b = byte '[' then
      if depth = 0 then .error .malformed else elements read (b :: rest) true rest
    else unexpected .sequence (b :: rest)

/-- When a field may be left out. -/
inductive Presence where
  | required
  /-- Optional in an object, though not in a sequence. -/
  | optionalMember
  | optional
  deriving DecidableEq

/-- A field of a record: how its value is read, and how it changes the record. -/
structure Field (α : Type) where
  name : String
  presence : Presence
  fill : Reader (α → α)

/-- A field that is read by `read` and stored by `set`. -/
def field {β : Type} (name : String) (presence : Presence) (read : Reader β) (set : α → β → α) :
    Field α where
  name := name
  presence := presence
  fill := fun input ↦ do
    let (value, rest) ← read input
    return (fun record ↦ set record value, rest)

/-- A record type: its name in messages, the value all of whose fields are left out, and its fields
in order. -/
structure Shape (α : Type) where
  name : String
  blank : α
  fields : List (Field α)

/-- Goes on to the next member of an object, up to and including the quote that opens its name.  At
the closing brace there is none, and the bytes after the brace are returned. -/
def nextMember (first : Bool) (input : Bytes) : Except Fault (Bool × Bytes) :=
  match skipBlanks input with
  | [] => .error .truncated
  | b :: rest =>
    if b = byte '\x7d' then .ok (false, rest)
    else if first then do return (true, ← expectByte (byte '"') (b :: rest))
    else if b = byte ',' then do return (true, ← expectByte (byte '"') (skipBlanks rest))
    else .error .malformed

def colon (input : Bytes) : Except Fault Bytes := expectByte (byte ':') (skipBlanks input)

/-- The members up to the closing brace, with the names of the fields that were given. -/
def members (fields : List (Field α)) :
    (steps : Bytes) → (first : Bool) → (given : List String) → α → Reader (List String × α)
  | [], _, _, _, _ => .error .truncated
  | _ :: steps, first, given, record, input => do
    match ← nextMember first input with
    | (false, rest) => return ((given, record), rest)
    | (true, rest) =>
      let (name, rest) ← textBody rest
      match fields.find? (·.name = name) with
      | none => members fields steps false given record (← skip (← colon rest))
      | some field =>
        if name ∈ given then throw (.duplicateMember name)
        else
          let (set, rest) ← field.fill (← colon rest)
          members fields steps false (name :: given) (set record) rest

/-- A record from the members of an object, given with its opening brace. -/
def fromMembers (shape : Shape α) : Reader α := fun input ↦ do
  let ((given, record), rest) ← members shape.fields input true [] shape.blank input.tail
  match shape.fields.find? fun field ↦ field.presence = .required ∧ field.name ∉ given with
  | some field => throw (.missingMember field.name)
  | none => return (record, rest)

/-- Closes a sequence all of whose elements are read. -/
def closeSequence (input : Bytes) : Except Fault Bytes :=
  expectByte (byte ']') (skipBlanks input)

/-- The given number of fields is read; the elements of the fields ahead follow. -/
def fieldElements (shape : Shape α) :
    List (Field α) → (given : Nat) → α → Reader α
  | [], _, record, input => do return (record, ← closeSequence input)
  | field :: fields, given, record, input => do
    match ← nextElement (given = 0) input with
    | (false, rest) =>
      if (field :: fields).all (·.presence = .optional) then return (record, rest)
      else throw (.tooFewElements given shape.name shape.fields.length)
    | (true, rest) =>
      let (set, rest) ← field.fill rest
      fieldElements shape fields (given + 1) (set record) rest

/-- A record.  The readers of its fields may open one array or object less than it may. -/
def record (shape : Nat → Shape α) (depth : Nat) : Reader α := fun input ↦
  match skipBlanks input with
  | [] => .error .truncated
  | b :: rest =>
    if b = byte '\x7b' ∨ b = byte '[' then
      match depth with
      | 0 => .error .malformed
      | depth + 1 =>
        if b = byte '\x7b' then fromMembers (shape depth) (b :: rest)
        else fieldElements (shape depth) (shape depth).fields 0 (shape depth).blank rest
    else unexpected (.record (shape 0).name) (b :: rest)

def namedVariant (variants : List (String × α)) (name : String) : Except Fault α :=
  match variants.lookup name with
  | some value => .ok value
  | none => .error (.unknownVariant name (variants.map Prod.fst))

/-- One of several names; also the only member of an object, with null for its value. -/
def variant (variants : List (String × α)) (depth : Nat) : Reader α := fun input ↦
  match skipBlanks input with
  | [] => .error .truncated
  | b :: rest =>
    if b = byte '"' then do
      let (name, rest) ← textBody rest
      return (← namedVariant variants name, rest)
    else if b = byte '\x7b' ∧ depth ≠ 0 then do
      let (name, rest) ← textBody (← expectByte (byte '"') (skipBlanks rest))
      let value ← namedVariant variants name
      let ((), rest) ← unit (← colon rest)
      return (value, ← expectByte (byte '\x7d') (skipBlanks rest))
    else .error .malformed

/-- Reads a text that holds one value and nothing after it but blanks. -/
def readAll (read : Reader α) (input : Bytes) : Except Fault α := do
  let (value, rest) ← read input
  if skipBlanks rest = [] then return value else throw .malformed

end ServiceMesh.Json
