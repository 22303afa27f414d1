import ServiceMesh.Json.Reader

/-!
# Values on the wire

A type that travels has one written form and one reader.  The reader accepts more than the written
form: members in any order, unknown members, and records as sequences.

Texts are written compactly.  In a string only quotes, backslashes and control characters below the
space are escaped; all other characters stand for themselves.
-/

namespace ServiceMesh.Json

/-- The characters of a text that is being written. -/
abbrev Written := List Char

/-- How a string shows one character. -/
def writeChar (c : Char) : Written :=
  match c with
  | '"' => ['\\', '"']
  | '\\' => ['\\', '\\']
  | '\x08' => ['\\', 'b']
  | '\t' => ['\\', 't']
  | '\n' => ['\\', 'n']
  | '\x0c' => ['\\', 'f']
  | '\r' => ['\\', 'r']
  | c =>
    if c < ' ' then
      ['\\', 'u', '0', '0', Nat.digitChar (c.toNat / 16), Nat.digitChar (c.toNat % 16)]
    else [c]

def writeText (text : String) : Written := '"' :: text.toList.flatMap writeChar ++ ['"']

def writeInteger (value : Int) : Written := (toString value).toList

/-- The parts with a comma between each two. -/
def separated : List Written → Written
  | [] => []
  | [part] => part
  | part :: parts => part ++ ',' :: separated parts

def writeSequence (elements : List Written) : Written := '[' :: separated elements ++ [']']

def writeMember (name : String) (value : Written) : Written := writeText name ++ ':' :: value

def writeObject (members : List (String × Written)) : Written :=
  '\x7b' :: separated (members.map fun member ↦ writeMember member.1 member.2) ++ ['\x7d']

end ServiceMesh.Json

namespace ServiceMesh

class Wire (α : Type) where
  /-- Reads a value in which so many arrays and objects may be opened. -/
  read : (depth : Nat) → Json.Reader α
  write : α → Json.Written

namespace Wire

/-- The number of arrays and objects that may be nested in one another. -/
def greatestNesting : Nat := 127

variable {α : Type} [Wire α]

def encode (value : α) : String := String.ofList (write value)

def decode (input : Json.Bytes) : Except Json.Fault α := Json.readAll (read greatestNesting) input

instance : Wire String := ⟨fun _ ↦ Json.text, Json.writeText⟩

instance : Wire Int64 := ⟨fun _ ↦ Json.int64, fun value ↦ Json.writeInteger value.toInt⟩

instance : Wire UInt64 := ⟨fun _ ↦ Json.uint64, fun value ↦ Json.writeInteger value.toNat⟩

instance : Wire (List α) where
  read depth := Json.sequence depth (read (depth - 1))
  write values := Json.writeSequence (values.map write)

/-- A field of a record that is read as its type is. -/
def field {β : Type} (depth : Nat) (name : String) (presence : Json.Presence) (set : β → α → β) :
    Json.Field β :=
  Json.field name presence (read depth) set

/-- A member of an object that is written as its type is. -/
def member (name : String) (value : α) : String × Json.Written := (name, write value)

end Wire

end ServiceMesh
