import Mathlib.Tactic.Common
import ServiceMesh.Json.Reader

/-!
# What readers accept

A reader that succeeds has gone through a success of each of its steps.  A success of a loop, over
the elements of a sequence, the members of an object or the fields of a record in a sequence, is
told as a run: one constructor for each kind of round, without the count of steps.  What holds of
values that are read is shown by induction on the run that read them.
-/

namespace ServiceMesh.Json

variable {α β : Type} {first : Bool} {input ahead rest : Bytes}

/-- A reader that succeeds has succeeded in both of its steps. -/
theorem bind_eq_ok_iff {ε : Type} {x : Except ε α} {f : α → Except ε β} {b : β} :
    x >>= f = .ok b ↔ ∃ a, x = .ok a ∧ f a = .ok b := by
  cases x <;> simp [bind, Except.bind]

theorem pure_eq_ok_iff {ε : Type} {a b : α} : (pure a : Except ε α) = .ok b ↔ a = b :=
  Except.ok.injEq a b ▸ Iff.rfl

theorem expectByte_eq_ok {wanted : UInt8} (h : expectByte wanted input = .ok rest) :
    input = wanted :: rest := by
  cases input with
  | nil => cases h
  | cons b tail =>
    rw [expectByte] at h
    split at h
    · next hb =>
      cases h
      rw [hb]
    · cases h

/-- A value of the wrong kind is refused in any case. -/
theorem unexpected_ne_ok {wanted : Wanted} {result : α × Bytes} :
    unexpected wanted input ≠ .ok result := by
  intro h
  unfold unexpected at h
  split at h
  · cases h
  · -- a simple value is read first, and the fault comes after it
    repeat' split at h
    all_goals first
      | cases h
      | obtain ⟨_, -, h⟩ := bind_eq_ok_iff.1 h
        first
          | cases h
          | split at h <;> cases h

theorem nextElement_eq_end (h : nextElement first input = .ok (false, rest)) :
    skipBlanks input = byte ']' :: rest := by
  unfold nextElement at h
  split at h
  · cases h
  · next b tail hblanks =>
    split at h
    · next hclosing =>
      cases h
      rw [hblanks, hclosing]
    · -- any other way on is to an element or a fault
      repeat' split at h
      all_goals cases h

/-- Blanks before an element are left to its reader if it is the first one, and skipped if not. -/
theorem nextElement_eq_more (h : nextElement first input = .ok (true, ahead)) :
    ∃ b tail, skipBlanks input = b :: tail ∧ b ≠ byte ']' ∧
      (first = true ∧ ahead = b :: tail ∨
        first = false ∧ b = byte ',' ∧ ahead = skipBlanks tail) := by
  unfold nextElement at h
  split at h
  · cases h
  · next b tail hblanks =>
    refine ⟨b, tail, hblanks, ?_⟩
    split at h
    · cases h
    · next hclosing =>
      refine ⟨hclosing, ?_⟩
      split at h
      · next hfirst =>
        cases h
        exact .inl ⟨hfirst, rfl⟩
      · next hfirst =>
        split at h
        · next hcomma =>
          split at h
          · cases h
          · next c rest htail =>
            split at h
            · cases h
            · cases h
              exact .inr ⟨Bool.eq_false_iff.2 hfirst, hcomma, htail.symm⟩
        · cases h

/-- An object ends at its brace, with blanks before it or none. -/
theorem nextMember_eq_end (h : nextMember first input = .ok (false, rest)) :
    skipBlanks input = byte '\x7d' :: rest := by
  unfold nextMember at h
  split at h
  · cases h
  · next b tail hblanks =>
    split at h
    · next hclosing =>
      cases h
      rw [hblanks, hclosing]
    · -- any other way on is to a member or a fault
      repeat' split at h
      all_goals first
        | cases h
        | obtain ⟨_, -, h⟩ := bind_eq_ok_iff.1 h
          cases h

theorem nextMember_eq_more (h : nextMember first input = .ok (true, ahead)) :
    ∃ b tail, skipBlanks input = b :: tail ∧ b ≠ byte '\x7d' ∧
      (first = true ∧ b :: tail = byte '"' :: ahead ∨
        first = false ∧ b = byte ',' ∧ skipBlanks tail = byte '"' :: ahead) := by
  unfold nextMember at h
  split at h
  · cases h
  · next b tail hblanks =>
    refine ⟨b, tail, hblanks, ?_⟩
    split at h
    · cases h
    · next hclosing =>
      refine ⟨hclosing, ?_⟩
      split at h
      · next hfirst =>
        obtain ⟨after, hquote, h⟩ := bind_eq_ok_iff.1 h
        cases h
        exact .inl ⟨hfirst, expectByte_eq_ok hquote⟩
      · next hfirst =>
        split at h
        · next hcomma =>
          obtain ⟨after, hquote, h⟩ := bind_eq_ok_iff.1 h
          cases h
          exact .inr ⟨Bool.eq_false_iff.2 hfirst, hcomma, expectByte_eq_ok hquote⟩
        · cases h

inductive ElementsRun (read : Reader α) : Bool → Bytes → List α → Bytes → Prop where
  | close {first : Bool} {input rest : Bytes}
      (hnext : nextElement first input = .ok (false, rest)) : ElementsRun read first input [] rest
  | element {first : Bool} {input ahead middle rest : Bytes} {value : α} {values : List α}
      (hnext : nextElement first input = .ok (true, ahead))
      (hread : read ahead = .ok (value, middle))
      (hmore : ElementsRun read false middle values rest) :
      ElementsRun read first input (value :: values) rest

theorem ElementsRun.of_elements {read : Reader α} {steps : Bytes} {values : List α}
    (h : elements read steps first input = .ok (values, rest)) :
    ElementsRun read first input values rest := by
  induction steps generalizing first input values with
  | nil => cases h
  | cons step steps ih =>
    obtain ⟨⟨more, ahead⟩, hnext, h⟩ := bind_eq_ok_iff.1 h
    cases more with
    | false =>
      cases h
      exact .close hnext
    | true =>
      obtain ⟨⟨value, middle⟩, hread, h⟩ := bind_eq_ok_iff.1 h
      obtain ⟨⟨values, rest⟩, hmore, h⟩ := bind_eq_ok_iff.1 h
      cases h
      exact .element hnext hread (ih hmore)

/-- What holds of whatever is read as an element holds of the elements. -/
theorem ElementsRun.forall {P : α → Prop} {read : Reader α} {values : List α}
    (hread : ∀ {input value rest}, read input = .ok (value, rest) → P value)
    (h : ElementsRun read first input values rest) : ∀ value ∈ values, P value := by
  induction h with
  | close => exact fun _ hmem ↦ by cases hmem
  | element _ hvalue _ ih => exact List.forall_mem_cons.2 ⟨hread hvalue, ih⟩

/-- A sequence is read in brackets, unless it is nested too deep. -/
theorem sequence_eq_ok {depth : ℕ} {read : Reader α} {values : List α}
    (h : sequence depth read input = .ok (values, rest)) :
    depth ≠ 0 ∧ ∃ ahead, skipBlanks input = byte '[' :: ahead ∧
      ElementsRun read true ahead values rest := by
  unfold sequence at h
  split at h
  · cases h
  · next b ahead hblanks =>
    split at h
    · next hopening =>
      subst hopening
      split at h
      · cases h
      · next hdepth => exact ⟨hdepth, ahead, hblanks, .of_elements h⟩
    · exact absurd h unexpected_ne_ok

/-- A run over the members of an object, from the names that were given before and the record so
far to those at the closing brace. -/
inductive MembersRun (fields : List (Field α)) :
    Bool → List String → α → Bytes → List String → α → Bytes → Prop where
  | close {first : Bool} {given : List String} {record : α} {input rest : Bytes}
      (hnext : nextMember first input = .ok (false, rest)) :
      MembersRun fields first given record input given record rest
  | unknown {first : Bool} {given given' : List String} {record record' : α} {name : String}
      {input ahead named body middle rest : Bytes}
      (hnext : nextMember first input = .ok (true, ahead))
      (hname : textBody ahead = .ok (name, named)) (hcolon : colon named = .ok body)
      (hfield : fields.find? (·.name = name) = none) (hskip : skip body = .ok middle)
      (hmore : MembersRun fields false given record middle given' record' rest) :
      MembersRun fields first given record input given' record' rest
  | known {first : Bool} {given given' : List String} {record record' : α} {name : String}
      {input ahead named body middle rest : Bytes} {field : Field α} {set : α → α}
      (hnext : nextMember first input = .ok (true, ahead))
      (hname : textBody ahead = .ok (name, named)) (hcolon : colon named = .ok body)
      (hfield : fields.find? (·.name = name) = some field) (hfresh : name ∉ given)
      (hfill : field.fill body = .ok (set, middle))
      (hmore : MembersRun fields false (name :: given) (set record) middle given' record' rest) :
      MembersRun fields first given record input given' record' rest

theorem MembersRun.of_members {fields : List (Field α)} {steps : Bytes}
    {given given' : List String} {record record' : α}
    (h : members fields steps first given record input = .ok ((given', record'), rest)) :
    MembersRun fields first given record input given' record' rest := by
  induction steps generalizing first given record input with
  | nil => cases h
  | cons step steps ih =>
    obtain ⟨⟨more, ahead⟩, hnext, h⟩ := bind_eq_ok_iff.1 h
    cases more with
    | false =>
      cases h
      exact .close hnext
    | true =>
      obtain ⟨⟨name, named⟩, hname, h⟩ := bind_eq_ok_iff.1 h
      dsimp only at h
      split at h
      · next hfield =>
        obtain ⟨body, hcolon, h⟩ := bind_eq_ok_iff.1 h
        obtain ⟨middle, hskip, h⟩ := bind_eq_ok_iff.1 h
        exact .unknown hnext hname hcolon hfield hskip (ih h)
      · next field hfield =>
        split at h
        · cases h
        · next hfresh =>
          obtain ⟨body, hcolon, h⟩ := bind_eq_ok_iff.1 h
          obtain ⟨⟨set, middle⟩, hfill, h⟩ := bind_eq_ok_iff.1 h
          exact .known hnext hname hcolon hfield hfresh hfill (ih h)

/-- What every field that is read preserves holds at the end of a run if it holds at its start. -/
theorem MembersRun.invariant {P : α → Prop} {fields : List (Field α)}
    (hfields : ∀ field ∈ fields, ∀ {input set rest}, field.fill input = .ok (set, rest) →
      ∀ record, P record → P (set record)) {given given' : List String} {record record' : α}
    (h : MembersRun fields first given record input given' record' rest) (hrecord : P record) :
    P record' := by
  induction h with
  | close => exact hrecord
  | unknown _ _ _ _ _ _ ih => exact ih hrecord
  | known _ _ _ hfield _ hfill _ ih =>
    exact ih (hfields _ (List.mem_of_find?_eq_some hfield) hfill _ hrecord)

/-- A run over the fields of a record that stands in a sequence, with the fields ahead and the
number of those before. -/
inductive FieldsRun : List (Field α) → ℕ → α → Bytes → α → Bytes → Prop where
  | close {given : ℕ} {record : α} {input rest : Bytes}
      (hclose : skipBlanks input = byte ']' :: rest) : FieldsRun [] given record input record rest
  | omitted {field : Field α} {fields : List (Field α)} {given : ℕ} {record : α}
      {input rest : Bytes} (hnext : nextElement (given = 0) input = .ok (false, rest)) :
      FieldsRun (field :: fields) given record input record rest
  | field {field : Field α} {fields : List (Field α)} {given : ℕ} {record record' : α}
      {input ahead middle rest : Bytes} {set : α → α}
      (hnext : nextElement (given = 0) input = .ok (true, ahead))
      (hfill : field.fill ahead = .ok (set, middle))
      (hmore : FieldsRun fields (given + 1) (set record) middle record' rest) :
      FieldsRun (field :: fields) given record input record' rest

theorem FieldsRun.of_fieldElements {shape : Shape α} {fields : List (Field α)} {given : ℕ}
    {record record' : α}
    (h : fieldElements shape fields given record input = .ok (record', rest)) :
    FieldsRun fields given record input record' rest := by
  induction fields generalizing given record input with
  | nil =>
    obtain ⟨after, hclose, h⟩ := bind_eq_ok_iff.1 h
    cases h
    exact .close (expectByte_eq_ok hclose)
  | cons field fields ih =>
    obtain ⟨⟨more, ahead⟩, hnext, h⟩ := bind_eq_ok_iff.1 h
    cases more with
    | false =>
      dsimp only at h
      split at h
      · cases h
        exact .omitted hnext
      · cases h
    | true =>
      obtain ⟨⟨set, middle⟩, hfill, h⟩ := bind_eq_ok_iff.1 h
      exact .field hnext hfill (ih h)

theorem FieldsRun.invariant {P : α → Prop} {fields : List (Field α)}
    (hfields : ∀ field ∈ fields, ∀ {input set rest}, field.fill input = .ok (set, rest) →
      ∀ record, P record → P (set record)) {given : ℕ} {record record' : α}
    (h : FieldsRun fields given record input record' rest) (hrecord : P record) : P record' := by
  induction h with
  | close => exact hrecord
  | omitted => exact hrecord
  | field _ hfill _ ih =>
    exact ih (fun field hmem ↦ hfields field (List.mem_cons_of_mem _ hmem))
      (hfields _ List.mem_cons_self hfill _ hrecord)

/-- A record that is read stands in an object in which no required member is missing, or in a
sequence. -/
theorem record_eq_ok {shape : ℕ → Shape α} {depth : ℕ} {value : α}
    (h : record shape depth input = .ok (value, rest)) :
    ∃ inner ahead, depth = inner + 1 ∧
      ((skipBlanks input = byte '\x7b' :: ahead ∧
          ∃ given, MembersRun (shape inner).fields true [] (shape inner).blank ahead given value
              rest ∧
            ∀ field ∈ (shape inner).fields, field.presence = .required → field.name ∈ given) ∨
        (skipBlanks input = byte '[' :: ahead ∧
          FieldsRun (shape inner).fields 0 (shape inner).blank ahead value rest)) := by
  unfold record at h
  split at h
  · cases h
  · next b ahead hblanks =>
    split at h
    · next hopening =>
      obtain _ | inner := depth
      · cases h
      refine ⟨inner, ahead, rfl, ?_⟩
      dsimp only at h
      split at h
      · next hbrace =>
        subst hbrace
        obtain ⟨⟨⟨given, record⟩, middle⟩, hmembers, h⟩ := bind_eq_ok_iff.1 h
        dsimp only at h
        split at h
        · cases h
        · next hmissing =>
          cases h
          refine .inl ⟨hblanks, given, .of_members hmembers, fun field hfield hrequired ↦ ?_⟩
          have hnone := List.find?_eq_none.1 hmissing field hfield
          simp only [decide_eq_true_eq, not_and, not_not] at hnone
          exact hnone hrequired
      · next hbrace =>
        obtain rfl := hopening.resolve_left hbrace
        exact .inr ⟨hblanks, .of_fieldElements h⟩
    · exact absurd h unexpected_ne_ok

/-- What holds of the blank record and is preserved by every field holds of a record that is
read. -/
theorem record_invariant {P : α → Prop} {shape : ℕ → Shape α} {inner : ℕ} {value : α}
    (hblank : P (shape inner).blank)
    (hfields : ∀ field ∈ (shape inner).fields, ∀ {input set rest},
      field.fill input = .ok (set, rest) → ∀ record, P record → P (set record))
    (h : record shape (inner + 1) input = .ok (value, rest)) : P value := by
  obtain ⟨inner', ahead, hdepth, hrun⟩ := record_eq_ok h
  obtain rfl := Nat.succ.inj hdepth
  rcases hrun with ⟨-, given, hrun, -⟩ | ⟨-, hrun⟩
  · exact hrun.invariant hfields hblank
  · exact hrun.invariant hfields hblank

/-- A field that is stored is read first. -/
theorem field_eq_ok {read : Reader β} {name : String} {presence : Presence} {set : α → β → α}
    {change : α → α} (h : (field name presence read set).fill input = .ok (change, rest)) :
    ∃ value, read input = .ok (value, rest) ∧ change = fun record ↦ set record value := by
  obtain ⟨⟨value, middle⟩, hread, h⟩ := bind_eq_ok_iff.1 h
  cases h
  exact ⟨value, hread, rfl⟩

end ServiceMesh.Json
