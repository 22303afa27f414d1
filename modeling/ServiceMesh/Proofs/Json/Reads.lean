import Mathlib.Data.List.Forall2
import ServiceMesh.Proofs.Json.Layout

/-!
# Readers and the texts that they read

A reader reads a text as a value if it takes just the text off, whatever follows; only a number must
not be gone on with.  What is written of a text, an integer or a variant is read as itself.  What is
written of a sequence or a record is read if each of its parts is.
-/

namespace ServiceMesh.Json

variable {α β : Type}

structure Reads (read : Reader α) (text : Bytes) (value : α) : Prop where
  begins : Begins text
  read : ∀ rest, Delimited rest → read (text ++ rest) = .ok (value, rest)

/-- The whole of a text is read. -/
theorem Reads.readAll {read : Reader α} {text : Bytes} {value : α} (h : Reads read text value) :
    readAll read text = .ok value := by
  have hread := h.read [] delimited_nil
  rw [List.append_nil] at hread
  simp only [Json.readAll, hread, bind, Except.bind, skipBlanks, List.dropWhile_nil, if_true, pure,
    Except.pure]

/-- A text is read from any of its spellings. -/
theorem reads_spelled {spelled : Bytes} {value : String} (h : Spells spelled (bytes value)) :
    Reads text (byte '"' :: spelled ++ [byte '"']) value where
  begins := begins_cons (by decide) (by decide) _
  read rest _ := by
    rw [List.append_assoc, List.cons_append, text, skipBlanks_cons (by decide)]
    exact h.textBody rest

theorem reads_text (value : String) : Reads text (encoded (writeText value)) value := by
  rw [encoded_writeText]
  exact reads_spelled (spells_written value)

/-- A text that may be null is read where one stands. -/
theorem reads_optionalText (value : String) :
    Reads optionalText (encoded (writeText value)) (some value) where
  begins := (reads_text value).begins
  read rest hrest := by
    have htext := (reads_text value).read rest hrest
    have hblank : isBlank (byte '"') = false := by decide
    have hnull : byte '"' ≠ byte 'n' := by decide
    rw [encoded_writeText, List.append_assoc, List.cons_append] at htext ⊢
    simp only [optionalText, skipBlanks_cons hblank, if_neg hnull, htext, bind, Except.bind, pure,
      Except.pure]

theorem begins_writeInteger (value : ℤ) : Begins (encoded (writeInteger value)) := by
  obtain ⟨b, more, hbytes, hfirst⟩ := encoded_writeInteger_cons value
  rw [hbytes]
  rcases hfirst with rfl | hdigit
  · exact begins_cons (by decide) (by decide) _
  · refine begins_cons (isBlank_of_isDigit hdigit) ?_ _
    rintro rfl
    cases hdigit

/-- An integer is read back within the range of its reader and of 64 bits. -/
theorem reads_integer {wanted : Wanted} {low high value : ℤ} (hlow : low ≤ value)
    (hhigh : value ≤ high) (hmin : -2 ^ 63 ≤ value) (hmax : value < 2 ^ 64) :
    Reads (integer wanted low high) (encoded (writeInteger value)) value where
  begins := begins_writeInteger value
  read rest hrest := by
    have hnumber := number_writeInteger hmin hmax hrest
    obtain ⟨b, more, hbytes, hfirst⟩ := encoded_writeInteger_cons value
    obtain ⟨_, _, hbegins, hblank, _⟩ := begins_writeInteger value
    obtain ⟨rfl, _⟩ := List.cons.inj (hbytes.symm.trans hbegins)
    rw [hbytes, List.cons_append] at hnumber ⊢
    simp only [integer, skipBlanks_cons hblank, if_pos hfirst, hnumber, bind, Except.bind, hlow,
      hhigh, and_self, if_true, pure, Except.pure]

theorem reads_int64 (value : Int64) :
    Reads int64 (encoded (writeInteger value.toInt)) value where
  begins := begins_writeInteger _
  read rest hrest := by
    have hmin : Int64.minValue.toInt = -2 ^ 63 := by decide
    have hmax : Int64.maxValue.toInt = 2 ^ 63 - 1 := by decide
    have hlow : -2 ^ 63 ≤ value.toInt := value.le_toInt
    have hhigh : value.toInt < 2 ^ 63 := value.toInt_lt
    have hread : Reads (integer .metric Int64.minValue.toInt Int64.maxValue.toInt)
        (encoded (writeInteger value.toInt)) value.toInt :=
      reads_integer (by omega) (by omega) hlow (by omega)
    simp only [int64, hread.read rest hrest, bind, Except.bind, Int64.ofInt_toInt, pure,
      Except.pure]

theorem reads_uint64 (value : UInt64) :
    Reads uint64 (encoded (writeInteger value.toNat)) value where
  begins := begins_writeInteger _
  read rest hrest := by
    have hsize : (UInt64.size : ℤ) = 2 ^ 64 := by decide
    have hvalue : value.toNat < 2 ^ 64 := value.toNat_lt
    have hread : Reads (integer .depth 0 (UInt64.size - 1)) (encoded (writeInteger value.toNat))
        (value.toNat : ℤ) :=
      reads_integer (by omega) (by omega) (by omega) (by omega)
    simp only [uint64, hread.read rest hrest, bind, Except.bind, Int.toNat_natCast,
      UInt64.ofNat_toNat, pure, Except.pure]

/-- A variant that is written by its name. -/
theorem reads_variant {variants : List (String × α)} {name : String} {value : α}
    (h : variants.lookup name = some value) (depth : ℕ) :
    Reads (variant variants depth) (encoded (writeText name)) value where
  begins := (reads_text name).begins
  read rest _ := by
    rw [encoded_writeText, List.append_assoc, List.cons_append]
    simp only [variant, skipBlanks_cons (show isBlank (byte '"') = false by decide), if_true]
    simp only [List.singleton_append, textBody_writeText, namedVariant, h, bind, Except.bind, pure,
      Except.pure]

theorem elements_append {gap : Bytes} (hgap : Blank gap) (read : Reader α) (steps : Bytes)
    (first : Bool) (input : Bytes) :
    elements read steps first (gap ++ input) = elements read steps first input := by
  cases steps with
  | nil => rfl
  | cons step steps => rw [elements, elements, nextElement_append hgap]

theorem elements_items {read : Reader α} {items : List Item} {values : List α}
    (h : List.Forall₂ (fun item ↦ Reads read item.value) items values) {gap : Bytes}
    (hgap : Blank gap) (first : Bool) {steps : Bytes} (hsteps : items.length < steps.length)
    (rest : Bytes) :
    elements read steps first (listed first gap (items.map Item.text) ++ byte ']' :: rest) =
      .ok (values, rest) := by
  induction h generalizing first gap steps with
  | nil =>
    obtain _ | ⟨step, steps⟩ := steps
    · cases hsteps
    · simp only [List.map_nil, listed, elements, nextElement_end hgap, bind, Except.bind, pure,
        Except.pure]
  | @cons item value items values hitem hitems ih =>
    obtain _ | ⟨step, steps⟩ := steps
    · cases hsteps
    · have hread := hitem.read _ (delimited_blank item.blank_after
        (delimited_listed (delimited_bracket rest) (items.map Item.text)))
      have hmore := ih blank_nil false (Nat.lt_of_succ_lt_succ hsteps)
      rw [← elements_append item.blank_after] at hmore
      simp only [List.map_cons, listed, List.append_assoc, elements, nextElement_item hitem.begins,
        bind, Except.bind, hread, hmore, pure, Except.pure]

/-- A sequence is read element by element, in any layout. -/
theorem reads_items {read : Reader α} {items : List Item} {values : List α}
    (h : List.Forall₂ (fun item ↦ Reads read item.value) items values) {gap : Bytes}
    (hgap : Blank gap) {depth : ℕ} (hdepth : depth ≠ 0) :
    Reads (sequence depth read) (sequenceText gap items) values where
  begins := begins_cons (by decide) (by decide) _
  read rest _ := by
    have hsteps : items.length < (byte '[' ::
        (listed true gap (items.map Item.text) ++ byte ']' :: rest)).length := by
      have hlength := length_le_listed true gap (items.map Item.text)
      simp only [List.length_cons, List.length_append, List.length_map] at hlength ⊢
      omega
    rw [sequenceText_append, sequence, skipBlanks_cons (by decide)]
    simp only [if_true, if_neg hdepth]
    exact elements_items h hgap true hsteps rest

/-- A sequence that is written is read if each of its parts is. -/
theorem reads_sequence {read : Reader α} {parts : List Written} {values : List α}
    (h : List.Forall₂ (fun part ↦ Reads read (encoded part)) parts values) {depth : ℕ}
    (hdepth : depth ≠ 0) :
    Reads (sequence depth read) (encoded (writeSequence parts)) values := by
  rw [encoded_writeSequence]
  exact reads_items (List.forall₂_map_left_iff.2 h) blank_nil hdepth

end ServiceMesh.Json
