import ServiceMesh.Proofs.Json.Values

/-!
# What is read would be passed over

A reader of a type and the scan that passes over unknown members are two readings of one text.  They
agree where a value ends: whatever a reader accepts is passed over up to the same byte.  So what a
reader takes off well-formed text is just the value that stands there, of whatever type it reads.
-/

namespace ServiceMesh.Json

variable {α β : Type} {input rest : Bytes}

/-- A reader that does not mind blanks ahead, and that takes off what would be passed over. -/
structure Orderly (read : Reader α) : Prop where
  blanks : ∀ input, read (skipBlanks input) = read input
  passes : ∀ {input : Bytes} {value : α} {rest : Bytes}, read input = .ok (value, rest) →
    Passes input rest

/-- A value that is accepted is read up to its end. -/
theorem Orderly.rest_eq {read : Reader α} (h : Orderly read) {text : Bytes} (htext : Value text)
    (hrest : Delimited rest) {value : α} {rest' : Bytes}
    (hread : read (text ++ rest) = .ok (value, rest')) : rest' = rest :=
  (h.passes hread).unique (htext.passes hrest)

theorem skipText_of_textBody {text : String} (h : textBody input = .ok (text, rest)) :
    skipText input input = .ok rest := by
  obtain ⟨spelled, hspells, rfl⟩ := textBody_eq_ok_iff.1 h
  exact hspells.textForm.skipText (by simp) rest

theorem orderly_text : Orderly text where
  blanks input := by rw [text, text, skipBlanks_skipBlanks]
  passes {input value rest} h := by
    refine .of_skipBlanks ?_
    unfold text at h
    split at h
    · cases h
    · next b ahead hblanks =>
      split at h
      · next hquote =>
        rw [hblanks, hquote]
        exact passes_text (skipText_of_textBody h)
      · exact absurd h unexpected_ne_ok

/-- What is read as a number is a numeral. -/
theorem number_eq_ok {read : Number} (h : number input = .ok (read, rest)) :
    ∃ numeral, Json.numeral .truncated input = .ok (numeral, rest) := by
  obtain ⟨⟨numeral, after⟩, hnumeral, h⟩ := bind_eq_ok_iff.1 h
  cases hvalue : numeral.value? with
  | none =>
    simp only [hvalue] at h
    cases h
  | some value =>
    simp only [hvalue] at h
    cases h
    exact ⟨numeral, hnumeral⟩

/-- An integer out of range is a numeral still, and is refused only after it has been read. -/
theorem orderly_integer (wanted : Wanted) (low high : ℤ) : Orderly (integer wanted low high) where
  blanks input := by rw [integer, integer, skipBlanks_skipBlanks]
  passes {input value rest} h := by
    refine .of_skipBlanks ?_
    unfold integer at h
    split at h
    · cases h
    · next b ahead hblanks =>
      split at h
      · next hfirst =>
        obtain ⟨⟨read, after⟩, hnumber, h⟩ := bind_eq_ok_iff.1 h
        obtain ⟨numeral, hnumeral⟩ := number_eq_ok hnumber
        obtain rfl : after = rest := by
          cases read with
          | integer held =>
            dsimp only at h
            split at h
            · cases h
              rfl
            · cases h
          | real => cases h
        rw [hblanks]
        exact passes_number hfirst hnumeral
      · exact absurd h unexpected_ne_ok

/-- To store a value that was read changes nothing of how it is read. -/
theorem Orderly.map {read : Reader α} (h : Orderly read) (change : α → β) :
    Orderly fun input ↦ do
      let (value, rest) ← read input
      return (change value, rest) where
  blanks input := by rw [h.blanks]
  passes {input value rest} hread := by
    obtain ⟨⟨held, after⟩, hheld, hread⟩ := bind_eq_ok_iff.1 hread
    cases hread
    exact h.passes hheld

theorem orderly_int64 : Orderly int64 := (orderly_integer _ _ _).map Int64.ofInt

theorem orderly_field {read : Reader β} (h : Orderly read) (name : String) (presence : Presence)
    (set : α → β → α) : Orderly (field name presence read set).fill :=
  h.map fun value record ↦ set record value

theorem orderly_unit : Orderly unit where
  blanks input := by rw [unit, unit, skipBlanks_skipBlanks]
  passes {input value rest} h := by
    refine .of_skipBlanks ?_
    unfold unit at h
    split at h
    · cases h
    · next b ahead hblanks =>
      split at h
      · next hnull =>
        obtain ⟨after, hword, h⟩ := bind_eq_ok_iff.1 h
        cases h
        rw [hblanks, hnull, expectWord_eq_ok hword]
        exact passes_word (List.mem_cons_self (a := bytes "null")) rest
      · exact absurd h unexpected_ne_ok

theorem orderly_variant (variants : List (String × α)) (depth : ℕ) :
    Orderly (variant variants depth) where
  blanks input := by rw [variant, variant, skipBlanks_skipBlanks]
  passes {input value rest} h := by
    refine .of_skipBlanks ?_
    unfold variant at h
    split at h
    · cases h
    · next b ahead hblanks =>
      rw [hblanks]
      split_ifs at h with hquote hbrace
      · obtain ⟨⟨name, after⟩, hname, h⟩ := bind_eq_ok_iff.1 h
        obtain ⟨held, hheld, h⟩ := bind_eq_ok_iff.1 h
        cases h
        rw [hquote]
        exact passes_text (skipText_of_textBody hname)
      · obtain ⟨opened, hopening, h⟩ := bind_eq_ok_iff.1 h
        obtain ⟨⟨name, named⟩, hname, h⟩ := bind_eq_ok_iff.1 h
        obtain ⟨held, hheld, h⟩ := bind_eq_ok_iff.1 h
        obtain ⟨body, hcolon, h⟩ := bind_eq_ok_iff.1 h
        obtain ⟨⟨_, after⟩, hunit, h⟩ := bind_eq_ok_iff.1 h
        obtain ⟨closed, hclosing, h⟩ := bind_eq_ok_iff.1 h
        cases h
        have hnext : nextMember true ahead = .ok (true, opened) := by
          have hquote := expectByte_eq_ok hopening
          rw [nextMember, hquote]
          rfl
        rw [hbrace.1]
        exact passes_object (.member hnext (skipText_of_textBody hname) hcolon
          (orderly_unit.passes hunit) (.close (expectByte_eq_ok hclosing)))

/-- As each element is passed over, so is the sequence. -/
theorem ElementsRun.passes {read : Reader α} (hread : Orderly read) {first : Bool}
    {values : List α} (h : ElementsRun read first input values rest) :
    PassesInside .sequence first input rest := by
  induction h with
  | close hnext => exact .close (nextElement_eq_end hnext)
  | element hnext hvalue _ ih => exact .element hnext (hread.passes hvalue) ih

theorem orderly_sequence {read : Reader α} (hread : Orderly read) (depth : ℕ) :
    Orderly (sequence depth read) where
  blanks input := by rw [sequence, sequence, skipBlanks_skipBlanks]
  passes {input values rest} h := by
    obtain ⟨-, ahead, hblanks, hrun⟩ := sequence_eq_ok h
    refine .of_skipBlanks ?_
    rw [hblanks]
    exact passes_sequence (hrun.passes hread)

/-- The members that are known and those that are not are passed over alike. -/
theorem MembersRun.passes {fields : List (Field α)}
    (hfields : ∀ field ∈ fields, Orderly field.fill) {first : Bool} {given given' : List String}
    {record record' : α} (h : MembersRun fields first given record input given' record' rest) :
    PassesInside .object first input rest := by
  induction h with
  | close hnext => exact .close (nextMember_eq_end hnext)
  | unknown hnext hname hcolon _ hskip _ ih =>
    exact .member hnext (skipText_of_textBody hname) hcolon (.of_skip hskip) ih
  | known hnext hname hcolon hfield _ hfill _ ih =>
    exact .member hnext (skipText_of_textBody hname) hcolon
      ((hfields _ (List.mem_of_find?_eq_some hfield)).passes hfill) ih

theorem FieldsRun.passes {fields : List (Field α)}
    (hfields : ∀ field ∈ fields, Orderly field.fill) {given : ℕ} {record record' : α}
    (h : FieldsRun fields given record input record' rest) :
    PassesInside .sequence (given = 0) input rest := by
  induction h with
  | close hclose => exact .close hclose
  | omitted hnext => exact .close (nextElement_eq_end hnext)
  | field hnext hfill _ ih =>
    exact .element hnext ((hfields _ List.mem_cons_self).passes hfill)
      (ih fun field hmem ↦ hfields field (List.mem_cons_of_mem _ hmem))

/-- A record is orderly if its fields are, in whichever of its two forms it comes. -/
theorem orderly_record {shape : ℕ → Shape α} {depth : ℕ}
    (hfields : ∀ inner, depth = inner + 1 → ∀ field ∈ (shape inner).fields, Orderly field.fill) :
    Orderly (record shape depth) where
  blanks input := by rw [record, record, skipBlanks_skipBlanks]
  passes {input value rest} h := by
    refine .of_skipBlanks ?_
    obtain ⟨inner, ahead, hdepth, ⟨hblanks, given, hrun, -⟩ | ⟨hblanks, hrun⟩⟩ := record_eq_ok h
    · rw [hblanks]
      exact passes_object (hrun.passes (hfields inner hdepth))
    · rw [hblanks]
      exact passes_sequence (hrun.passes (hfields inner hdepth))

end ServiceMesh.Json
