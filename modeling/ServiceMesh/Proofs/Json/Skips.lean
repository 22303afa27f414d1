import ServiceMesh.Proofs.Json.Accepted
import ServiceMesh.Proofs.Json.Layout

/-!
# Passing over a value

A value is passed over in steps that its bytes pay for, so that a container takes no more steps than
the bytes ahead.  What stands in a container is passed over round by round, and each round is one
that a reader of the container would go through as well.
-/

namespace ServiceMesh.Json

variable {first : Bool} {input ahead named body middle rest : Bytes}

/-- A value stands ahead, after blanks, and is passed over up to the rest. -/
structure Passes (input rest : Bytes) : Prop where
  shorter : rest.length < input.length
  skip : ∀ steps : Bytes, input.length ≤ steps.length →
    skipWith (skipInside steps true) input = .ok rest

structure PassesInside (container : Container) (first : Bool) (input rest : Bytes) : Prop where
  shorter : rest.length < input.length
  skip : ∀ steps : Bytes, input.length < steps.length →
    skipInside steps first container input = .ok rest

/-- There is but one way to pass over a value. -/
theorem Passes.unique {rest' : Bytes} (h : Passes input rest) (h' : Passes input rest') :
    rest = rest' :=
  Except.ok.inj ((h.skip input (Nat.le_refl _)).symm.trans (h'.skip input (Nat.le_refl _)))

theorem Passes.skip_eq (h : Passes input rest) : Json.skip input = .ok rest :=
  h.skip input (Nat.le_refl _)

theorem skipWith_skipBlanks (inside : Container → Bytes → Except Fault Bytes) (input : Bytes) :
    skipWith inside (skipBlanks input) = skipWith inside input := by
  rw [skipWith, skipWith, skipBlanks_skipBlanks]

/-- Blanks ahead make no difference. -/
theorem Passes.of_skipBlanks (h : Passes (skipBlanks input) rest) : Passes input rest where
  shorter := Nat.lt_of_lt_of_le h.shorter (length_skipBlanks_le input)
  skip steps hsteps := by
    rw [← skipWith_skipBlanks]
    exact h.skip steps (Nat.le_trans (length_skipBlanks_le input) hsteps)

/-- Blanks may stand before a value that is passed over. -/
theorem Passes.append_blank {gap : Bytes} (hgap : Blank gap) (h : Passes input rest) :
    Passes (gap ++ input) rest := by
  have hblanks : skipBlanks (gap ++ input) = skipBlanks input := skipBlanks_append hgap input
  have hshorter := h.shorter
  refine ⟨by rw [List.length_append]; omega, fun steps hsteps ↦ ?_⟩
  rw [← skipWith_skipBlanks, hblanks, skipWith_skipBlanks]
  exact h.skip steps (by rw [List.length_append] at hsteps; omega)

theorem passes_word {word : Bytes}
    (hword : word ∈ [bytes "null", bytes "true", bytes "false"]) (rest : Bytes) :
    Passes (word ++ rest) rest := by
  simp only [List.mem_cons, List.not_mem_nil, or_false] at hword
  rcases hword with rfl | rfl | rfl
  all_goals
    refine ⟨?_, fun _ _ ↦ rfl⟩
    rw [List.length_append]
    exact Nat.lt_add_of_pos_left (by decide)

theorem length_skipEscape (h : skipEscape input = .ok rest) : rest.length < input.length := by
  unfold skipEscape at h
  split at h
  · cases h
  · split at h
    · cases h
      exact Nat.lt_succ_self _
    · split at h
      · next b tail _ _ =>
        cases hunit : codeUnit tail with
        | error fault =>
          rw [hunit] at h
          cases h
        | ok result =>
          obtain ⟨digits, hdigits, hbytes⟩ := codeUnit_eq_ok hunit
          rw [hunit] at h
          cases h
          rw [hbytes, List.length_cons, List.length_append]
          omega
      · cases h

/-- To pass over a text is to make progress. -/
theorem length_skipText {steps : Bytes} (h : skipText steps input = .ok rest) :
    rest.length < input.length := by
  induction steps generalizing input with
  | nil => cases h
  | cons step steps ih =>
    obtain _ | ⟨b, input⟩ := input
    · cases h
    rw [skipText] at h
    split at h
    · cases h
      exact Nat.lt_succ_self _
    · split at h
      · obtain ⟨ahead, hescape, h⟩ := bind_eq_ok_iff.1 h
        have hshorter := length_skipEscape hescape
        have hmore := ih h
        rw [List.length_cons]
        omega
      · split at h
        · cases h
        · exact Nat.lt_succ_of_lt (ih h)

theorem passes_text (h : skipText ahead ahead = .ok rest) : Passes (byte '"' :: ahead) rest where
  shorter := Nat.lt_succ_of_lt (length_skipText h)
  skip steps _ := by
    rw [skipWith, skipBlanks_cons (by decide)]
    exact h

/-- A number is passed over however the lack of its digits is called. -/
theorem passes_number {b : UInt8} (hfirst : b = byte '-' ∨ isDigit b = true) {short : Fault}
    {read : Numeral} (h : numeral short (b :: ahead) = .ok (read, rest)) :
    Passes (b :: ahead) rest where
  shorter := (numeral_eq_ok .malformed h).2
  skip steps _ := by
    have h := (numeral_eq_ok .malformed h).1
    have hblank : isBlank b = false := hfirst.elim (fun hminus ↦ hminus ▸ rfl) isBlank_of_isDigit
    have hletter {c : Char} (hdigit : isDigit (byte c) = false) (hminus : byte c ≠ byte '-') :
        b ≠ byte c := by
      rintro rfl
      exact hfirst.elim hminus fun h ↦ absurd h (by simp [hdigit])
    simp only [skipWith, skipBlanks_cons hblank,
      if_neg (hletter (c := 'n') (by decide) (by decide)),
      if_neg (hletter (c := 't') (by decide) (by decide)),
      if_neg (hletter (c := 'f') (by decide) (by decide)),
      if_neg (hletter (c := '"') (by decide) (by decide)), if_pos hfirst, h, Except.map]

theorem passes_sequence (h : PassesInside .sequence true ahead rest) :
    Passes (byte '[' :: ahead) rest where
  shorter := Nat.lt_succ_of_lt h.shorter
  skip steps hsteps := by
    rw [skipWith, skipBlanks_cons (by decide)]
    exact h.skip steps hsteps

theorem passes_object (h : PassesInside .object true ahead rest) :
    Passes (byte '\x7b' :: ahead) rest where
  shorter := Nat.lt_succ_of_lt h.shorter
  skip steps hsteps := by
    rw [skipWith, skipBlanks_cons (by decide)]
    exact h.skip steps hsteps

/-- In an object a name stands before each value. -/
def skipLabel : Container → Bytes → Except Fault Bytes
  | .sequence, input => .ok input
  | .object, input => skipName input

def skipPart (steps : Bytes) (container : Container) (input : Bytes) : Except Fault Bytes := do
  let body ← skipLabel container input
  let middle ← skipWith (skipInside steps true) body
  skipInside steps false container middle

theorem skipInside_cons (step : UInt8) (steps : Bytes) (first : Bool) (container : Container)
    (input : Bytes) :
    skipInside (step :: steps) first container input =
      match skipBlanks input with
      | [] => .error .truncated
      | b :: rest =>
        if b = container.closing then .ok rest
        else if first then skipPart steps container (b :: rest)
        else if b = byte ',' then skipPart steps container rest
        else .error .malformed := by
  cases container <;> rfl

/-- A part has been passed over if its label, its value and all that follows have been. -/
theorem skipPart_eq_ok_iff {container : Container} {steps : Bytes} :
    skipPart steps container input = .ok rest ↔
      ∃ body middle, skipLabel container input = .ok body ∧
        skipWith (skipInside steps true) body = .ok middle ∧
        skipInside steps false container middle = .ok rest := by
  simp only [skipPart, bind_eq_ok_iff, exists_and_left]

/-- A part of a container follows, up to its end or to a comma that is not the first byte. -/
def PartAhead (container : Container) (first : Bool) (input ahead : Bytes) : Prop :=
  ∃ b tail, skipBlanks input = b :: tail ∧ b ≠ container.closing ∧
    (first = true ∧ ahead = b :: tail ∨ first = false ∧ b = byte ',' ∧ ahead = tail)

/-- What one round does: it closes the container, or goes over a part and on to the next. -/
theorem skipInside_eq_ok_iff {container : Container} {step : UInt8} {steps : Bytes} :
    skipInside (step :: steps) first container input = .ok rest ↔
      skipBlanks input = container.closing :: rest ∨
      ∃ ahead, PartAhead container first input ahead ∧
        skipPart steps container ahead = .ok rest := by
  rw [skipInside_cons]
  constructor
  · intro h
    split at h
    · cases h
    · next b tail hblanks =>
      split at h
      · next hclosing =>
        cases h
        exact .inl (by rw [hblanks, hclosing])
      · next hclosing =>
        split at h
        · next hfirst =>
          exact .inr ⟨b :: tail, ⟨b, tail, hblanks, hclosing, .inl ⟨hfirst, rfl⟩⟩, h⟩
        · next hfirst =>
          split at h
          · next hcomma =>
            exact .inr ⟨tail, ⟨b, tail, hblanks, hclosing,
              .inr ⟨Bool.eq_false_iff.2 hfirst, hcomma, rfl⟩⟩, h⟩
          · cases h
  · rintro (hclose | ⟨ahead, ⟨b, tail, hblanks, hclosing, ⟨rfl, rfl⟩ | ⟨rfl, rfl, rfl⟩⟩, hpart⟩)
    · simp only [hclose, if_true]
    · simp only [hblanks, if_neg hclosing, if_true, hpart]
    · simp only [hblanks, if_neg hclosing, Bool.false_eq_true, if_false, if_true, hpart]

theorem PartAhead.length_le {container : Container} (h : PartAhead container first input ahead) :
    ahead.length ≤ input.length := by
  obtain ⟨b, tail, hblanks, -, hahead⟩ := h
  have hinput := length_skipBlanks_le input
  rw [hblanks, List.length_cons] at hinput
  rcases hahead with ⟨-, rfl⟩ | ⟨-, -, rfl⟩
  · exact hinput
  · omega

theorem length_skipLabel {container : Container} (h : skipLabel container input = .ok rest) :
    rest.length ≤ input.length := by
  cases container with
  | sequence =>
    cases h
    exact Nat.le_refl _
  | object =>
    obtain ⟨opened, hquote, h⟩ := bind_eq_ok_iff.1 h
    obtain ⟨named, hname, hcolon⟩ := bind_eq_ok_iff.1 h
    have hopened := length_skipBlanks_le input
    have hnamed := length_skipBlanks_le named
    have hshorter := length_skipText hname
    rw [expectByte_eq_ok hquote, List.length_cons] at hopened
    rw [expectByte_eq_ok hcolon, List.length_cons] at hnamed
    omega

theorem PassesInside.close {container : Container}
    (h : skipBlanks input = container.closing :: rest) :
    PassesInside container first input rest where
  shorter := by
    have hlength := length_skipBlanks_le input
    rw [h, List.length_cons] at hlength
    omega
  skip
    | [], hsteps => absurd hsteps (Nat.not_lt_zero _)
    | _ :: _, _ => skipInside_eq_ok_iff.2 (.inl h)

/-- A round that goes over a part and on to the next. -/
theorem PassesInside.part {container : Container} (hahead : PartAhead container first input ahead)
    (hlabel : skipLabel container ahead = .ok body) (hvalue : Passes body middle)
    (hmore : PassesInside container false middle rest) :
    PassesInside container first input rest := by
  have hinput := hahead.length_le
  have hbody := length_skipLabel hlabel
  have hvalueShorter := hvalue.shorter
  have hmoreShorter := hmore.shorter
  refine ⟨by omega, fun steps hsteps ↦ ?_⟩
  obtain _ | ⟨step, steps⟩ := steps
  · cases hsteps
  rw [List.length_cons] at hsteps
  exact skipInside_eq_ok_iff.2 (.inr ⟨ahead, hahead, skipPart_eq_ok_iff.2 ⟨body, middle, hlabel,
    hvalue.skip steps (by omega), hmore.skip steps (by omega)⟩⟩)

/-- Blanks may stand before a part, and before the closing bracket. -/
theorem PassesInside.append_blank {container : Container} {gap : Bytes} (hgap : Blank gap)
    (h : PassesInside container first input rest) :
    PassesInside container first (gap ++ input) rest where
  shorter := by
    have hshorter := h.shorter
    rw [List.length_append]
    omega
  skip steps hsteps := by
    have hskip := h.skip steps (by rw [List.length_append] at hsteps; omega)
    cases steps with
    | nil => cases hskip
    | cons step steps =>
      rw [skipInside] at hskip ⊢
      rwa [skipBlanks_append hgap]

/-- A round over a sequence, as a reader goes through it. -/
theorem PassesInside.element (h : nextElement first input = .ok (true, ahead))
    (hvalue : Passes ahead middle) (hmore : PassesInside .sequence false middle rest) :
    PassesInside .sequence first input rest := by
  obtain ⟨b, tail, hblanks, hclosing, ⟨hfirst, rfl⟩ | ⟨hfirst, hcomma, rfl⟩⟩ :=
    nextElement_eq_more h
  · exact .part ⟨b, tail, hblanks, hclosing, .inl ⟨hfirst, rfl⟩⟩ rfl hvalue hmore
  · exact .part ⟨b, tail, hblanks, hclosing, .inr ⟨hfirst, hcomma, rfl⟩⟩ rfl
      (.of_skipBlanks hvalue) hmore

/-- A round over an object, as a reader goes through it. -/
theorem PassesInside.member (h : nextMember first input = .ok (true, ahead))
    (hname : skipText ahead ahead = .ok named) (hcolon : colon named = .ok body)
    (hvalue : Passes body middle) (hmore : PassesInside .object false middle rest) :
    PassesInside .object first input rest := by
  have hlabel (input : Bytes) (hquote : skipBlanks input = byte '"' :: ahead) :
      skipLabel .object input = .ok body := by
    have hopening : expectByte (byte '"') (skipBlanks input) = .ok ahead := by
      rw [hquote]
      rfl
    exact bind_eq_ok_iff.2 ⟨ahead, hopening, bind_eq_ok_iff.2 ⟨named, hname, hcolon⟩⟩
  obtain ⟨b, tail, hblanks, hclosing, ⟨hfirst, hquote⟩ | ⟨hfirst, hcomma, hquote⟩⟩ :=
    nextMember_eq_more h
  · have hinput := hlabel (b :: tail) (by rw [← hblanks, skipBlanks_skipBlanks, hblanks, hquote])
    exact .part ⟨b, tail, hblanks, hclosing, .inl ⟨hfirst, rfl⟩⟩ hinput hvalue hmore
  · exact .part ⟨b, tail, hblanks, hclosing, .inr ⟨hfirst, hcomma, rfl⟩⟩ (hlabel tail hquote)
      hvalue hmore

/-- A value is a simple one, which takes no steps, or what stands in its container is passed over
in those that there are. -/
theorem skipWith_eq_ok {inside : Container → Bytes → Except Fault Bytes}
    (h : skipWith inside input = .ok rest) :
    Passes input rest ∨
      (∃ ahead, skipBlanks input = byte '[' :: ahead ∧ inside .sequence ahead = .ok rest) ∨
      ∃ ahead, skipBlanks input = byte '\x7b' :: ahead ∧ inside .object ahead = .ok rest := by
  unfold skipWith at h
  split at h
  · cases h
  · next b ahead hblanks =>
    have hword (c : Char) (word : List UInt8) (hb : b = byte c)
        (hmem : byte c :: word ∈ [bytes "null", bytes "true", bytes "false"])
        (hexpect : expectWord word ahead = .ok rest) : Passes input rest := by
      refine .of_skipBlanks ?_
      rw [hblanks, hb, expectWord_eq_ok hexpect]
      exact passes_word hmem rest
    split_ifs at h with hnull htrue hfalse hquote hnumber hsequence hobject
    · exact .inl (hword 'n' _ hnull (by decide) h)
    · exact .inl (hword 't' _ htrue (by decide) h)
    · exact .inl (hword 'f' _ hfalse (by decide) h)
    · exact .inl (.of_skipBlanks (hblanks ▸ hquote ▸ passes_text h))
    · refine .inl (.of_skipBlanks ?_)
      cases hnumeral : numeral .malformed (b :: ahead) with
      | error fault =>
        rw [hnumeral] at h
        cases h
      | ok result =>
        rw [hnumeral] at h
        cases h
        rw [hblanks]
        exact passes_number hnumber hnumeral
    · exact .inr (.inl ⟨ahead, by rw [hblanks, hsequence], h⟩)
    · exact .inr (.inr ⟨ahead, by rw [hblanks, hobject], h⟩)

/-- The steps that a scan has taken are never more than its bytes, so any steps that are enough for
the bytes would do. -/
theorem PassesInside.of_skipInside {container : Container} {steps : Bytes}
    (h : skipInside steps first container input = .ok rest) :
    PassesInside container first input rest := by
  induction steps generalizing container first input rest with
  | nil => cases h
  | cons step steps ih =>
    rcases skipInside_eq_ok_iff.1 h with hclose | ⟨ahead, hahead, hpart⟩
    · exact .close hclose
    · obtain ⟨body, middle, hlabel, hskip, hmore⟩ := skipPart_eq_ok_iff.1 hpart
      refine .part hahead hlabel ?_ (ih hmore)
      rcases skipWith_eq_ok hskip with
        hpasses | ⟨inner, hblanks, hinside⟩ | ⟨inner, hblanks, hinside⟩
      · exact hpasses
      · exact .of_skipBlanks (hblanks ▸ passes_sequence (ih hinside))
      · exact .of_skipBlanks (hblanks ▸ passes_object (ih hinside))

/-- A scan that succeeds has passed over a value. -/
theorem Passes.of_skip (h : Json.skip input = .ok rest) : Passes input rest := by
  rcases skipWith_eq_ok h with hpasses | ⟨inner, hblanks, hinside⟩ | ⟨inner, hblanks, hinside⟩
  · exact hpasses
  · exact .of_skipBlanks (hblanks ▸ passes_sequence (.of_skipInside hinside))
  · exact .of_skipBlanks (hblanks ▸ passes_object (.of_skipInside hinside))

end ServiceMesh.Json
