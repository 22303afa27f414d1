import ServiceMesh.Decimal
import ServiceMesh.Text

/-!
# Scanning JSON

The steps below the level of values: blanks, single bytes, words, escapes, texts and numbers.  A
scan takes the bytes ahead and returns those that are left.

Every step of a loop takes one byte at least.  So the bytes ahead also count the steps: a loop runs
down a list that is as long as its input, and its input is such a list.

The value of an unknown member is passed over: only its form is looked at.  Its texts may hold lone
surrogates and bytes that are no UTF-8, its numbers may be of any size, and it may be nested to any
depth.

A reader stops at the first fault, from left to right.  A text that ends too early and a text that
is no JSON are told apart but not described further; a value of the wrong kind is named together
with what was wanted in its place.
-/

namespace ServiceMesh.Json

/-- A value that stands where another kind of value was wanted. -/
inductive Found where
  | null
  | boolean (value : Bool)
  | integer (value : Int)
  | real (negative : Bool) (magnitude : Decimal.Binary64)
  | text (value : String)
  | sequence
  | map
  deriving DecidableEq

/-- What a reader wanted. -/
inductive Wanted where
  | text
  | sequence
  /-- A signed 64-bit integer. -/
  | metric
  /-- An unsigned 64-bit integer. -/
  | depth
  | unit
  | record (name : String)
  deriving DecidableEq

inductive Fault where
  | truncated
  | malformed
  | wrongKind (found : Found) (wanted : Wanted)
  | outOfRange (value : Int) (wanted : Wanted)
  | duplicateMember (name : String)
  | missingMember (name : String)
  | tooFewElements (given : Nat) (record : String) (wanted : Nat)
  | unknownVariant (given : String) (variants : List String)
  deriving DecidableEq

def Found.message : Found → String
  | .null => "null"
  | .boolean value => s!"boolean `{value}`"
  | .integer value => s!"integer `{value}`"
  | .real negative magnitude =>
    let sign := if negative then "-" else ""
    let text := if magnitude.mantissa = 0 then "0.0" else magnitude.shortest.pointText
    s!"floating point `{sign}{text}`"
  | .text value => s!"string {Text.quoted value}"
  | .sequence => "sequence"
  | .map => "map"

def Wanted.message : Wanted → String
  | .text => "a string"
  | .sequence => "a sequence"
  | .metric => "i64"
  | .depth => "usize"
  | .unit => "unit"
  | .record name => s!"struct {name}"

/-- A choice of variants; two are joined by a word, more are listed. -/
def variantsMessage : List String → String
  | [] => "there are no variants"
  | [only] => s!"expected `{only}`"
  | [one, other] => s!"expected `{one}` or `{other}`"
  | variants => "expected one of " ++ ", ".intercalate (variants.map fun name ↦ s!"`{name}`")

def Fault.message : Fault → String
  | .truncated => "<eof>"
  | .malformed => "<syntax>"
  | .wrongKind found wanted => s!"invalid type: {found.message}, expected {wanted.message}"
  | .outOfRange value wanted => s!"invalid value: integer `{value}`, expected {wanted.message}"
  | .duplicateMember name => s!"duplicate field `{name}`"
  | .missingMember name => s!"missing field `{name}`"
  | .tooFewElements given record wanted =>
    let elements := if wanted = 1 then "element" else "elements"
    s!"invalid length {given}, expected struct {record} with {wanted} {elements}"
  | .unknownVariant given variants => s!"unknown variant `{given}`, {variantsMessage variants}"

/-- The bytes of a text that are still ahead. -/
abbrev Bytes := List UInt8

/-- The bytes of a text in UTF-8. -/
def bytes (text : String) : Bytes := text.toUTF8.data.toList

/-- The byte of an ASCII character. -/
def byte (c : Char) : UInt8 := c.toUInt8

def isBlank (b : UInt8) : Bool := b = byte ' ' || b = byte '\t' || b = byte '\n' || b = byte '\r'

def skipBlanks (input : Bytes) : Bytes := input.dropWhile isBlank

def isDigit (b : UInt8) : Bool := byte '0' ≤ b && b ≤ byte '9'

/-- The given byte must come next. -/
def expectByte (wanted : UInt8) : Bytes → Except Fault Bytes
  | [] => .error .truncated
  | b :: rest => if b = wanted then .ok rest else .error .malformed

/-- The given word must come next. -/
def expectWord : List UInt8 → Bytes → Except Fault Bytes
  | [], input => .ok input
  | b :: word, input => do expectWord word (← expectByte b input)

def hexDigit (b : UInt8) : Option Nat :=
  if isDigit b then some (b.toNat - (byte '0').toNat)
  else if byte 'a' ≤ b ∧ b ≤ byte 'f' then some (b.toNat - (byte 'a').toNat + 10)
  else if byte 'A' ≤ b ∧ b ≤ byte 'F' then some (b.toNat - (byte 'A').toNat + 10)
  else none

/-- Four hexadecimal digits.  Fewer than four bytes are a text cut short, whatever they are. -/
def codeUnit : Bytes → Except Fault (Nat × Bytes)
  | a :: b :: c :: d :: rest =>
    match hexDigit a, hexDigit b, hexDigit c, hexDigit d with
    | some a, some b, some c, some d => .ok (((a * 16 + b) * 16 + c) * 16 + d, rest)
    | _, _, _, _ => .error .malformed
  | _ => .error .truncated

/-- The character that a backslash and this letter stand for. -/
def shortEscape (b : UInt8) : Option Char :=
  if b = byte '"' then some '"'
  else if b = byte '\\' then some '\\'
  else if b = byte '/' then some '/'
  else if b = byte 'b' then some '\x08'
  else if b = byte 'f' then some '\x0c'
  else if b = byte 'n' then some '\n'
  else if b = byte 'r' then some '\r'
  else if b = byte 't' then some '\t'
  else none

def isLeading (unit : Nat) : Bool := 0xD800 ≤ unit && unit ≤ 0xDBFF

def isTrailing (unit : Nat) : Bool := 0xDC00 ≤ unit && unit ≤ 0xDFFF

/-- The character of a leading and a trailing surrogate. -/
def joinSurrogates (leading trailing : Nat) : Char :=
  Char.ofNat (0x10000 + (leading - 0xD800) * 0x400 + (trailing - 0xDC00))

/-- The character of an escape by code units, after its `u`; surrogates come in pairs only. -/
def unicodeEscape (input : Bytes) : Except Fault (Char × Bytes) := do
  let (unit, rest) ← codeUnit input
  if isTrailing unit then throw .malformed
  else if isLeading unit then
    let (trailing, rest) ← codeUnit (← expectWord [byte '\\', byte 'u'] rest)
    if isTrailing trailing then return (joinSurrogates unit trailing, rest) else throw .malformed
  else return (Char.ofNat unit, rest)

/-- The character of an escape, after its backslash. -/
def escape : Bytes → Except Fault (Char × Bytes)
  | [] => .error .truncated
  | b :: rest =>
    match shortEscape b with
    | some c => .ok (c, rest)
    | none => if b = byte 'u' then unicodeEscape rest else .error .malformed

/-- The bytes of a text up to its closing quote, and those after it. -/
def textBytes : (steps : Bytes) → Bytes → Except Fault (Bytes × Bytes)
  | [], _ => .error .truncated
  | _ :: _, [] => .error .truncated
  | _ :: steps, b :: rest =>
    if b = byte '"' then .ok ([], rest)
    else if b = byte '\\' then do
      let (c, rest) ← escape rest
      let (held, rest) ← textBytes steps rest
      return (String.utf8EncodeChar c ++ held, rest)
    else if b < byte ' ' then .error .malformed
    else do
      let (held, rest) ← textBytes steps rest
      return (b :: held, rest)

/-- A text after its opening quote.  Whether its bytes are UTF-8 is asked at the closing quote. -/
def textBody (input : Bytes) : Except Fault (String × Bytes) := do
  let (held, rest) ← textBytes input input
  match String.fromUTF8? ⟨held.toArray⟩ with
  | some text => return (text, rest)
  | none => throw .malformed

/-- A number as written: its digits by value, and the exponent if one is given. -/
structure Numeral where
  negative : Bool
  whole : List Nat
  fraction : List Nat
  /-- The sign and the digits of the exponent. -/
  exponent : Option (Bool × List Nat)

/-- A number as read: a whole one that 64 bits hold, or a magnitude of double precision. -/
inductive Number where
  | integer (value : Int)
  | real (negative : Bool) (magnitude : Decimal.Binary64)

/-- A run of digits, by value, and what follows. -/
def digits (input : Bytes) : List Nat × Bytes :=
  ((input.takeWhile isDigit).map fun b ↦ b.toNat - (byte '0').toNat, input.dropWhile isDigit)

/-- A run of digits that must not be empty; `short` is the fault of a text that ends before it. -/
def someDigits (short : Fault) (input : Bytes) : Except Fault (List Nat × Bytes) :=
  match digits input with
  | ([], []) => .error short
  | ([], _) => .error .malformed
  | run => .ok run

/-- The digits before the point: a zero stands alone. -/
def wholeDigits (short : Fault) (input : Bytes) : Except Fault (List Nat × Bytes) := do
  match ← someDigits short input with
  | (0 :: _ :: _, _) => throw .malformed
  | run => return run

def fractionDigits (short : Fault) : Bytes → Except Fault (List Nat × Bytes)
  | [] => .ok ([], [])
  | b :: rest => if b = byte '.' then someDigits short rest else .ok ([], b :: rest)

def exponentDigits (short : Fault) : Bytes → Except Fault (Option (Bool × List Nat) × Bytes)
  | [] => .ok (none, [])
  | b :: rest =>
    if b = byte 'e' ∨ b = byte 'E' then do
      let (negative, rest) := match rest with
        | [] => (false, [])
        | sign :: after =>
          if sign = byte '-' then (true, after)
          else if sign = byte '+' then (false, after)
          else (false, sign :: after)
      let (run, rest) ← someDigits short rest
      return (some (negative, run), rest)
    else .ok (none, b :: rest)

/-- A number, sign included. -/
def numeral (short : Fault) (input : Bytes) : Except Fault (Numeral × Bytes) := do
  let (negative, input) := match input with
    | [] => (false, [])
    | b :: rest => if b = byte '-' then (true, rest) else (false, b :: rest)
  let (whole, input) ← wholeDigits short input
  let (fraction, input) ← fractionDigits short input
  let (exponent, input) ← exponentDigits short input
  return (⟨negative, whole, fraction, exponent⟩, input)

/-- Appends digits to a significand while 64 bits hold it, and gives back the digits left over. -/
def absorb (significand : Nat) : List Nat → Nat × List Nat
  | [] => (significand, [])
  | digit :: rest =>
    if significand * 10 + digit < UInt64.size then absorb (significand * 10 + digit) rest
    else (significand, digit :: rest)

/-- Divides by a power of ten, at most three hundred and eight places at a time. -/
def shrink (x : Decimal.Binary64) (places : Nat) : Option Decimal.Binary64 :=
  if x.mantissa = 0 then some x
  else if places ≤ 308 then Decimal.Binary64.nearest (Nat.pow 10 places) 1 >>= x.div
  else do shrink (← Decimal.Binary64.nearest (Nat.pow 10 308) 1 >>= x.div) (places - 308)
termination_by places

/-- A significand times a power of ten, each step rounded to double precision; nothing if it is too
large for a double. -/
def scaled (significand : Nat) (places : Int) : Option Decimal.Binary64 := do
  let x ← Decimal.Binary64.nearest significand 1
  if x.mantissa = 0 then return x
  else if places < 0 then shrink x (-places).toNat
  else if places ≤ 308 then Decimal.Binary64.nearest (Nat.pow 10 places.toNat) 1 >>= x.mul
  else none

/-- The value of a run of digits. -/
def digitsValue (run : List Nat) : Nat := run.foldl (fun value digit ↦ 10 * value + digit) 0

/-- The greatest magnitude of a written exponent that is looked at. -/
def greatestExponent : Nat := Nat.pow 2 31 - 1

namespace Numeral

/-- The value as a double.  Digits that 64 bits do not hold count as zeros before the point and not
at all after it. -/
def real? (n : Numeral) : Option Decimal.Binary64 :=
  let (significand, zeros) := absorb 0 n.whole
  let (significand, unused) := absorb significand n.fraction
  let places : Int := (zeros.length : Int) - (n.fraction.length - unused.length : Nat)
  match n.exponent with
  | none => scaled significand places
  | some (negative, run) =>
    if greatestExponent < digitsValue run then
      if significand = 0 ∨ negative then some .zero else none
    else if negative then scaled significand (places - digitsValue run)
    else scaled significand (places + digitsValue run)

/-- The value of a numeral; nothing if it is too large for a double.  Without a fraction and an
exponent it is an integer if 64 bits hold it, except that a negative zero is no integer. -/
def value? (n : Numeral) : Option Number :=
  let magnitude := digitsValue n.whole
  if n.fraction = [] ∧ n.exponent = none ∧ n.negative = false ∧ magnitude < UInt64.size then
    some (.integer magnitude)
  else if n.fraction = [] ∧ n.exponent = none ∧ n.negative = true ∧ magnitude ≠ 0 ∧
      magnitude ≤ Nat.pow 2 63 then
    some (.integer (-magnitude))
  else n.real?.map (.real n.negative)

end Numeral

/-- A number that is read, sign included. -/
def number (input : Bytes) : Except Fault (Number × Bytes) := do
  let (numeral, rest) ← numeral .truncated input
  match numeral.value? with
  | some value => return (value, rest)
  | none => throw .malformed

def skipEscape : Bytes → Except Fault Bytes
  | [] => .error .truncated
  | b :: rest =>
    if (shortEscape b).isSome then .ok rest
    else if b = byte 'u' then (codeUnit rest).map Prod.snd
    else .error .malformed

/-- Passes over a text after its opening quote. -/
def skipText : (steps : Bytes) → Bytes → Except Fault Bytes
  | [], _ => .error .truncated
  | _ :: _, [] => .error .truncated
  | _ :: steps, b :: rest =>
    if b = byte '"' then .ok rest
    else if b = byte '\\' then do skipText steps (← skipEscape rest)
    else if b < byte ' ' then .error .malformed
    else skipText steps rest

/-- Passes over the name of a member and its colon. -/
def skipName (input : Bytes) : Except Fault Bytes := do
  let rest ← expectByte (byte '"') (skipBlanks input)
  let rest ← skipText rest rest
  expectByte (byte ':') (skipBlanks rest)

/-- A sequence or an object. -/
inductive Container where
  | sequence
  | object
  deriving DecidableEq

/-- The byte that closes a container. -/
def Container.closing : Container → UInt8
  | .sequence => byte ']'
  | .object => byte '\x7d'

/-- Passes over a value, given how to pass over what stands in a container. -/
def skipWith (inside : Container → Bytes → Except Fault Bytes) (input : Bytes) :
    Except Fault Bytes :=
  match skipBlanks input with
  | [] => .error .truncated
  | b :: rest =>
    if b = byte 'n' then expectWord [byte 'u', byte 'l', byte 'l'] rest
    else if b = byte 't' then expectWord [byte 'r', byte 'u', byte 'e'] rest
    else if b = byte 'f' then expectWord [byte 'a', byte 'l', byte 's', byte 'e'] rest
    else if b = byte '"' then skipText rest rest
    else if b = byte '-' ∨ isDigit b then (numeral .malformed (b :: rest)).map Prod.snd
    else if b = byte '[' then inside .sequence rest
    else if b = byte '\x7b' then inside .object rest
    else .error .malformed

/-- Passes over what stands in a container, its closing bracket included. -/
def skipInside : (steps : Bytes) → (first : Bool) → Container → Bytes → Except Fault Bytes
  | [], _, _, _ => .error .truncated
  | _ :: steps, first, container, input =>
    match skipBlanks input with
    | [] => .error .truncated
    | b :: rest =>
      let item := fun input ↦ do
        let value ← match container with
          | .sequence => .ok input
          | .object => skipName input
        skipInside steps false container (← skipWith (skipInside steps true) value)
      if b = container.closing then .ok rest
      else if first then item (b :: rest)
      else if b = byte ',' then item rest
      else .error .malformed

/-- Passes over one value. -/
def skip (input : Bytes) : Except Fault Bytes := skipWith (skipInside input true) input

end ServiceMesh.Json
