import Mathlib.Data.List.Basic
import ServiceMesh.Json.Scan

/-!
# The bytes of a text

The bytes of a text are those of its characters one after another.  Texts are compared character by
character, and that is the order of their bytes as well: the encoding of a lower character is below
that of a higher one at the first byte in which they differ, whatever follows.
-/

namespace ServiceMesh.Json

open String (utf8EncodeChar)

theorem bytes_eq_flatMap (text : String) : bytes text = text.toList.flatMap utf8EncodeChar := by
  obtain ⟨chars, rfl⟩ : ∃ chars, text = String.ofList chars := ⟨text.toList, by simp⟩
  simp [bytes, List.utf8Encode]

theorem bytes_ofList (chars : List Char) :
    bytes (String.ofList chars) = chars.flatMap utf8EncodeChar := by
  rw [bytes_eq_flatMap, String.toList_ofList]

/-- Different characters part at a byte that both encodings have. -/
theorem utf8EncodeChar_append_lt {c d : Char} (h : c < d) (rest rest' : Bytes) :
    utf8EncodeChar c ++ rest < utf8EncodeChar d ++ rest' := by
  have hval : c.val.toNat < d.val.toNat := h
  have hbound : d.val.toNat < 0x110000 := by
    have hvalid := d.valid
    simp only [UInt32.isValidChar, Nat.isValidChar] at hvalid
    omega
  simp only [utf8EncodeChar]
  generalize c.val.toNat = v at hval ⊢
  generalize d.val.toNat = w at hval hbound ⊢
  have h64 : v / 64 ≤ w / 64 := by omega
  have h4096 : v / 64 / 64 ≤ w / 64 / 64 := by omega
  have h262144 : v / 64 / 64 / 64 ≤ w / 64 / 64 / 64 := by omega
  have hsecond (x : ℕ) : x / 4096 = x / 64 / 64 := (Nat.div_div_eq_div_mul x 64 64).symm
  have hfirst (x : ℕ) : x / 262144 = x / 64 / 64 / 64 := by
    rw [Nat.div_div_eq_div_mul, Nat.div_div_eq_div_mul]
  split_ifs <;>
    simp (disch := omega) only [List.cons_append, List.nil_append, List.cons_lt_cons_iff,
      UInt8.lt_iff_toNat_lt, ← UInt8.toNat_inj, UInt8.toNat_ofNat', Nat.reducePow, hsecond, hfirst,
      Nat.mod_eq_of_lt] <;>
    omega

/-- A text that comes first is a prefix of the other one, or lower where they part. -/
theorem flatMap_utf8EncodeChar_lt {chars chars' : List Char} (h : chars < chars') :
    chars.flatMap utf8EncodeChar < chars'.flatMap utf8EncodeChar := by
  induction chars generalizing chars' with
  | nil =>
    cases chars' with
    | nil => exact absurd h (List.not_lt_nil _)
    | cons d rest' =>
      rw [List.flatMap_cons]
      cases hbytes : utf8EncodeChar d with
      | nil => exact absurd hbytes String.utf8EncodeChar_ne_nil
      | cons b more => exact List.nil_lt_cons _ _
  | cons c rest ih =>
    cases chars' with
    | nil => exact absurd h (List.not_lt_nil _)
    | cons d rest' =>
      rw [List.flatMap_cons, List.flatMap_cons]
      rcases List.cons_lt_cons_iff.1 h with hlt | ⟨rfl, hrest⟩
      · exact utf8EncodeChar_append_lt hlt _ _
      · exact List.append_left_lt (ih hrest)

/-- Texts are in the order of their bytes. -/
theorem bytes_lt_bytes_iff (one other : String) : bytes one < bytes other ↔ one < other := by
  have hmono {one other : String} (h : one < other) : bytes one < bytes other := by
    rw [bytes_eq_flatMap, bytes_eq_flatMap]
    exact flatMap_utf8EncodeChar_lt h
  constructor
  · intro h
    by_contra hnot
    rcases eq_or_ne one other with rfl | hne
    · exact List.lt_irrefl _ h
    · have hgt : other < one := String.not_le.1 fun hle ↦
        hne (String.le_antisymm hle (String.not_lt.1 hnot))
      exact List.lt_asymm h (hmono hgt)
  · exact hmono

end ServiceMesh.Json
