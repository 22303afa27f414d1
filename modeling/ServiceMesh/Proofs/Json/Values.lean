import ServiceMesh.Proofs.Json.Skips

/-!
# The grammar of values

A value is a word, a number, a text, a sequence or an object, with any blanks between its tokens and
nested to any depth.  Whatever follows it, just the value is passed over.
-/

namespace ServiceMesh.Json

/-- A text between its quotes.  Its code units need not make up characters, nor its bytes UTF-8. -/
inductive TextForm : Bytes → Prop where
  | nil : TextForm []
  | plain {b : UInt8} {more : Bytes} (hplain : isPlain b = true) (hmore : TextForm more) :
      TextForm (b :: more)
  | letter {letter c : Char} {more : Bytes} (hletter : (letter, c) ∈ escapeLetters)
      (hmore : TextForm more) : TextForm (byte '\\' :: byte letter :: more)
  | unit {digits more : Bytes} {n : ℕ} (hunit : ShowsUnit digits n) (hmore : TextForm more) :
      TextForm (byte '\\' :: byte 'u' :: digits ++ more)

/-- A text with a spelling is well-formed. -/
theorem Spells.textForm {spelled held : Bytes} (h : Spells spelled held) : TextForm spelled := by
  induction h with
  | nil => exact .nil
  | plain hplain _ ih => exact .plain hplain ih
  | escape hform _ ih =>
    cases hform with
    | letter hletter => exact .letter hletter ih
    | unit hunit => exact .unit hunit ih
    | pair _ hleading htrailing =>
      have htext := TextForm.unit hleading (.unit htrailing ih)
      simpa only [List.cons_append, List.append_assoc] using htext

/-- A text is passed over up to its closing quote, and an escaped quote does not end it. -/
theorem TextForm.skipText {form : Bytes} (h : TextForm form) {steps : Bytes}
    (hsteps : form.length < steps.length) (rest : Bytes) :
    skipText steps (form ++ byte '"' :: rest) = .ok rest := by
  have hslash : byte '\\' ≠ byte '"' := by decide
  induction h generalizing steps with
  | nil =>
    obtain _ | ⟨step, steps⟩ := steps
    · cases hsteps
    · rfl
  | @plain b more hplain hmore ih =>
    obtain _ | ⟨step, steps⟩ := steps
    · cases hsteps
    · simp only [isPlain, Bool.and_eq_true, decide_eq_true_eq] at hplain
      obtain ⟨⟨hquote, hslash⟩, hspace⟩ := hplain
      rw [List.cons_append, Json.skipText, if_neg hquote, if_neg hslash,
        if_neg (UInt8.not_lt.2 hspace)]
      exact ih (Nat.lt_of_succ_lt_succ hsteps)
  | @letter letter c more hletter hmore ih =>
    obtain _ | ⟨step, steps⟩ := steps
    · cases hsteps
    · have hshorter : more.length < steps.length := by
        simp only [List.length_cons] at hsteps
        omega
      simp only [List.cons_append, Json.skipText, if_neg hslash, if_true, skipEscape,
        shortEscape_letter hletter, Option.isSome_some, bind, Except.bind, ih hshorter]
  | @unit digits more n hunit hmore ih =>
    obtain _ | ⟨step, steps⟩ := steps
    · cases hsteps
    · have hshorter : more.length < steps.length := by
        simp only [List.length_cons, List.length_append] at hsteps
        omega
      have hu : shortEscape (byte 'u') = none := by decide
      simp only [List.cons_append, List.append_assoc, Json.skipText, if_neg hslash, if_true,
        skipEscape, hu, Option.isSome_none, Bool.false_eq_true, if_false, hunit.codeUnit,
        Except.map, bind, Except.bind, ih hshorter]

def Run (run : Bytes) : Prop := run ≠ [] ∧ ∀ b ∈ run, isDigit b = true

/-- The sign, the whole part, the fraction and the exponent of a number.  No zero stands before
another digit of the whole part. -/
inductive NumberForm : Bytes → Prop where
  | parts {sign whole fraction exponent : Bytes} (hsign : sign = [] ∨ sign = [byte '-'])
      (hwhole : Run whole) (hzero : whole.head? = some (byte '0') → whole.tail = [])
      (hfraction : fraction = [] ∨ ∃ run, Run run ∧ fraction = byte '.' :: run)
      (hexponent : exponent = [] ∨ ∃ letter sign run, (letter = byte 'e' ∨ letter = byte 'E') ∧
        (sign = [] ∨ sign = [byte '-'] ∨ sign = [byte '+']) ∧ Run run ∧
        exponent = letter :: sign ++ run) :
      NumberForm (sign ++ (whole ++ (fraction ++ exponent)))

section Numbers

variable {rest : Bytes} (short : Fault)

theorem Run.someDigits {run : Bytes} (h : Run run) (hrest : ∀ b ∈ rest.head?, isDigit b = false) :
    someDigits short (run ++ rest) = .ok (run.map fun b ↦ b.toNat - (byte '0').toNat, rest) := by
  rw [Json.someDigits, digits_append h.2 hrest]
  obtain _ | ⟨b, run⟩ := run
  · exact absurd rfl h.1
  · rfl

theorem Run.wholeDigits {run : Bytes} (h : Run run)
    (hzero : run.head? = some (byte '0') → run.tail = [])
    (hrest : ∀ b ∈ rest.head?, isDigit b = false) :
    wholeDigits short (run ++ rest) = .ok (run.map fun b ↦ b.toNat - (byte '0').toNat, rest) := by
  simp only [Json.wholeDigits, h.someDigits short hrest, bind, Except.bind]
  split
  · next heq =>
    obtain ⟨hrun, -⟩ := Prod.mk.inj heq
    obtain _ | ⟨b, _ | ⟨b', run⟩⟩ := run
    · cases hrun
    · simp only [List.map_cons, List.map_nil, List.cons.injEq, reduceCtorEq, and_false] at hrun
    · have hb := (isDigit_iff b).1 (h.2 b List.mem_cons_self)
      have hvalue : b.toNat - (byte '0').toNat = 0 := (List.cons.inj hrun).1
      have hbyte : (byte '0').toNat = 48 := by decide
      have hb : b = byte '0' := UInt8.toNat_inj.1 (by omega)
      cases hzero (congrArg some hb)
  · rfl

theorem fractionDigits_run {run : Bytes} (h : Run run)
    (hrest : ∀ b ∈ rest.head?, isDigit b = false) :
    fractionDigits short (byte '.' :: (run ++ rest)) =
      .ok (run.map fun b ↦ b.toNat - (byte '0').toNat, rest) := by
  rw [fractionDigits, if_pos rfl, h.someDigits short hrest]

theorem exponentDigits_run {letter : UInt8} {sign run : Bytes}
    (hletter : letter = byte 'e' ∨ letter = byte 'E')
    (hsign : sign = [] ∨ sign = [byte '-'] ∨ sign = [byte '+']) (h : Run run)
    (hrest : ∀ b ∈ rest.head?, isDigit b = false) :
    ∃ read, exponentDigits short (letter :: sign ++ run ++ rest) = .ok (read, rest) := by
  have hrun := h.someDigits short hrest
  rcases hsign with rfl | rfl | rfl
  · obtain _ | ⟨b, run⟩ := run
    · exact absurd rfl h.1
    · have hb := h.2 b List.mem_cons_self
      have hminus : b ≠ byte '-' := by rintro rfl; cases hb
      have hplus : b ≠ byte '+' := by rintro rfl; cases hb
      rw [List.cons_append] at hrun
      simp only [List.nil_append, List.cons_append, exponentDigits, if_pos hletter, if_neg hminus,
        if_neg hplus, hrun, bind, Except.bind, pure, Except.pure, Except.ok.injEq, Prod.mk.injEq,
        and_true, exists_eq']
  · simp only [List.cons_append, List.nil_append, exponentDigits, if_pos hletter, if_true, hrun,
      bind, Except.bind, pure, Except.pure, Except.ok.injEq, Prod.mk.injEq, and_true, exists_eq']
  · have hminus : byte '+' ≠ byte '-' := by decide
    simp only [List.cons_append, List.nil_append, exponentDigits, if_pos hletter, if_neg hminus,
      if_true, hrun, bind, Except.bind, pure, Except.pure, Except.ok.injEq, Prod.mk.injEq, and_true,
      exists_eq']

/-- Every number that is well-formed is read to its end. -/
theorem NumberForm.numeral {form : Bytes} (h : NumberForm form) (hrest : Delimited rest) :
    ∃ read, numeral short (form ++ rest) = .ok (read, rest) := by
  obtain @⟨sign, whole, fraction, exponent, hsign, hwhole, hzero, hfraction, hexponent⟩ := h
  obtain ⟨value, hexponentDigits⟩ :
      ∃ value, exponentDigits short (exponent ++ rest) = .ok (value, rest) := by
    rcases hexponent with rfl | ⟨letter, sign, run, hletter, hsign, hrun, rfl⟩
    · exact ⟨none, exponentDigits_delimited short hrest⟩
    · exact exponentDigits_run short hletter hsign hrun fun b hmem ↦ (hrest b hmem).1
  -- neither the exponent nor what follows goes on with the digits before it
  have hafter : ∀ b ∈ (exponent ++ rest).head?, isDigit b = false ∧ b ≠ byte '.' := by
    rcases hexponent with rfl | ⟨letter, sign, run, hletter, -, -, rfl⟩
    · exact fun b hmem ↦ ⟨(hrest b hmem).1, (hrest b hmem).2.1⟩
    · intro b hmem
      obtain rfl : letter = b := Option.some_inj.1 hmem
      rcases hletter with rfl | rfl <;> decide
  obtain ⟨places, hfractionDigits⟩ : ∃ places,
      fractionDigits short (fraction ++ (exponent ++ rest)) = .ok (places, exponent ++ rest) := by
    rcases hfraction with rfl | ⟨run, hrun, rfl⟩
    · refine ⟨[], ?_⟩
      rw [List.nil_append]
      cases hbytes : exponent ++ rest with
      | nil => rfl
      | cons b more => rw [fractionDigits, if_neg (hafter b (by rw [hbytes]; rfl)).2]
    · exact ⟨_, fractionDigits_run short hrun fun b hmem ↦ (hafter b hmem).1⟩
  have hpoint : ∀ b ∈ (fraction ++ (exponent ++ rest)).head?, isDigit b = false := by
    rcases hfraction with rfl | ⟨run, -, rfl⟩
    · exact fun b hmem ↦ (hafter b hmem).1
    · intro b hmem
      obtain rfl : byte '.' = b := Option.some_inj.1 hmem
      decide
  have hwholeDigits := hwhole.wholeDigits short hzero hpoint
  rcases hsign with rfl | rfl
  · obtain _ | ⟨b, whole⟩ := whole
    · exact absurd rfl hwhole.1
    · have hminus : b ≠ byte '-' := by
        rintro rfl
        cases hwhole.2 _ List.mem_cons_self
      rw [List.cons_append] at hwholeDigits
      simp only [List.nil_append, List.cons_append, List.append_assoc, Json.numeral,
        if_neg hminus, hwholeDigits, hfractionDigits, hexponentDigits, bind, Except.bind, pure,
        Except.pure, Except.ok.injEq, Prod.mk.injEq, and_true, exists_eq']
  · simp only [List.cons_append, List.nil_append, List.append_assoc, Json.numeral, if_true,
      hwholeDigits, hfractionDigits, hexponentDigits, bind, Except.bind, pure, Except.pure,
      Except.ok.injEq, Prod.mk.injEq, and_true, exists_eq']

theorem NumberForm.cons {form : Bytes} (h : NumberForm form) :
    ∃ b more, form = b :: more ∧ (b = byte '-' ∨ isDigit b = true) := by
  obtain @⟨sign, whole, fraction, exponent, hsign, hwhole, -, -, -⟩ := h
  rcases hsign with rfl | rfl
  · obtain _ | ⟨b, whole⟩ := whole
    · exact absurd rfl hwhole.1
    · exact ⟨b, _, rfl, .inr (hwhole.2 b List.mem_cons_self)⟩
  · exact ⟨byte '-', _, rfl, .inl rfl⟩

end Numbers

/-- A value that is well-formed.  What it means is not looked at: a number may be of any size, and
an object may name a member twice. -/
inductive Value : Bytes → Prop where
  | word {word : Bytes}
      (hword : word ∈ [bytes "null", bytes "true", bytes "false"]) : Value word
  | number {form : Bytes} (hform : NumberForm form) : Value form
  | text {form : Bytes} (hform : TextForm form) : Value (byte '"' :: form ++ [byte '"'])
  | sequence {gap : Bytes} {items : List Item} (hgap : Blank gap)
      (hitems : ∀ item ∈ items, Value item.value) : Value (sequenceText gap items)
  | object {gap : Bytes} {members : List Member} (hgap : Blank gap)
      (hnames : ∀ member ∈ members, TextForm member.name)
      (hvalues : ∀ member ∈ members, Value member.value) : Value (objectText gap members)

/-- A value begins with neither a blank nor a closing bracket. -/
theorem Value.begins {value : Bytes} (h : Value value) : Begins value := by
  cases h with
  | word hword =>
    simp only [List.mem_cons, List.not_mem_nil, or_false] at hword
    rcases hword with rfl | rfl | rfl
    all_goals exact begins_cons (by decide) (by decide) _
  | number hform =>
    obtain ⟨b, more, rfl, rfl | hdigit⟩ := hform.cons
    · exact begins_cons (by decide) (by decide) _
    · refine begins_cons (isBlank_of_isDigit hdigit) ?_ _
      rintro rfl
      cases hdigit
  | text => exact begins_cons (by decide) (by decide) _
  | sequence => exact begins_cons (by decide) (by decide) _
  | object => exact begins_cons (by decide) (by decide) _

theorem value_writeText (text : String) : Value (encoded (writeText text)) := by
  rw [encoded_writeText]
  exact .text (spells_written text).textForm

theorem value_writeSequence {parts : List Written} (h : ∀ part ∈ parts, Value (encoded part)) :
    Value (encoded (writeSequence parts)) := by
  rw [encoded_writeSequence]
  exact .sequence blank_nil (List.forall_mem_map.2 h)

/-- What is written of an object is well-formed if its members are. -/
theorem value_writeObject {parts : List (String × Written)}
    (h : ∀ member ∈ parts, Value (encoded member.2)) : Value (encoded (writeObject parts)) := by
  rw [encoded_writeObject]
  exact .object blank_nil
    (List.forall_mem_map.2 fun member _ ↦ (writtenEntry member).spells.textForm)
    (List.forall_mem_map.2 h)

/-- A layout of values that are passed over is passed over. -/
theorem passesInside_items {items : List Item} (hitems : ∀ item ∈ items, Value item.value)
    (hpasses : ∀ item ∈ items, ∀ rest, Delimited rest → Passes (item.value ++ rest) rest)
    {gap : Bytes} (hgap : Blank gap) (first : Bool) (rest : Bytes) :
    PassesInside .sequence first (listed first gap (items.map Item.text) ++ byte ']' :: rest)
      rest := by
  induction items generalizing first gap with
  | nil => exact .append_blank hgap (.close (skipBlanks_cons (by decide) rest))
  | cons item items ih =>
    have hvalue := hpasses item List.mem_cons_self _ (delimited_blank item.blank_after
      (delimited_listed (delimited_bracket rest) (items.map Item.text)))
    have hmore := ih (fun item hmem ↦ hitems item (List.mem_cons_of_mem _ hmem))
      (fun item hmem ↦ hpasses item (List.mem_cons_of_mem _ hmem)) blank_nil false
    rw [List.map_cons, listed, List.append_assoc]
    exact .element (nextElement_item (hitems item List.mem_cons_self).begins) hvalue
      (hmore.append_blank item.blank_after)

theorem skipText_tail {member : Member} (h : TextForm member.name) (rest : Bytes) :
    skipText (member.tail ++ rest) (member.tail ++ rest) =
      .ok (member.afterName ++ byte ':' :: (member.toItem.text ++ rest)) := by
  rw [member.tail_append]
  exact h.skipText (by simp) _

theorem passesInside_members {members : List Member}
    (hnames : ∀ member ∈ members, TextForm member.name)
    (hpasses : ∀ member ∈ members, ∀ rest, Delimited rest → Passes (member.value ++ rest) rest)
    {gap : Bytes} (hgap : Blank gap) (first : Bool) (rest : Bytes) :
    PassesInside .object first
      (listed first gap (members.map Member.text) ++ byte '\x7d' :: rest) rest := by
  induction members generalizing first gap with
  | nil => exact .append_blank hgap (.close (skipBlanks_cons (by decide) rest))
  | cons member members ih =>
    have hvalue := hpasses member List.mem_cons_self _ (delimited_blank member.blank_after
      (delimited_listed (delimited_brace rest) (members.map Member.text)))
    have hmore := ih (fun member hmem ↦ hnames member (List.mem_cons_of_mem _ hmem))
      (fun member hmem ↦ hpasses member (List.mem_cons_of_mem _ hmem)) blank_nil false
    rw [List.map_cons, listed, List.append_assoc]
    refine .member (nextMember_member member)
      (skipText_tail (hnames member List.mem_cons_self) _)
      (colon_append member.blank_afterName) ?_ (hmore.append_blank member.blank_after)
    rw [Item.text, List.append_assoc, List.append_assoc]
    exact hvalue.append_blank member.blank_before

/-- Just the value is passed over. -/
theorem Value.passes {value : Bytes} (h : Value value) {rest : Bytes} (hrest : Delimited rest) :
    Passes (value ++ rest) rest := by
  induction h generalizing rest with
  | word hword => exact passes_word hword rest
  | number hform =>
    obtain ⟨read, hnumeral⟩ := hform.numeral .malformed hrest
    obtain ⟨b, more, rfl, hfirst⟩ := hform.cons
    exact passes_number hfirst hnumeral
  | text hform =>
    rw [List.append_assoc, List.cons_append]
    exact passes_text (hform.skipText (by simp) rest)
  | @sequence gap items hgap hitems ih =>
    rw [sequenceText_append]
    exact passes_sequence
      (passesInside_items hitems (fun item hmem _ ↦ ih item hmem) hgap true rest)
  | @object gap members hgap hnames hvalues ih =>
    rw [objectText_append]
    exact passes_object
      (passesInside_members hnames (fun member hmem _ ↦ ih member hmem) hgap true rest)

end ServiceMesh.Json
