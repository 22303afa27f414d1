import Mathlib.Data.List.DropRight
import ServiceMesh.Text

/-!
# Texts taken apart

What is trimmed neither begins nor ends with a blank, so there is nothing left to trim.  Blanks and
nothing else have been taken off its two ends, and there is only one way to do so.

To cut a text at a separator is to split the list of its characters there, so the pieces joined by
the separator are the text again, and none of them has a separator in it.  A text that is cut at its
last separator has none after it.

A numeral is read digit by digit, and reading stops as soon as a value exceeds the limit.  More
digits never make a value smaller, so a numeral is refused for its size just when its whole value
exceeds the limit, however many zeros it begins with.
-/

namespace ServiceMesh.Text

theorem trimChars_eq (chars : List Char) :
    trimChars chars = (chars.dropWhile isBlank).rdropWhile isBlank := rfl

theorem trimChars_sublist (chars : List Char) : (trimChars chars).Sublist chars :=
  (List.rdropWhile_prefix _ _).sublist.trans (List.dropWhile_sublist _)

/-- What is left of a text without leading blanks has no leading blanks. -/
theorem dropWhile_trimChars (chars : List Char) :
    (trimChars chars).dropWhile isBlank = trimChars chars := by
  have hkept : trimChars chars <+: chars.dropWhile isBlank := List.rdropWhile_prefix _ _
  rw [List.dropWhile_eq_self_iff]
  intro hlength
  have hlead : 0 < (chars.dropWhile isBlank).length := hlength.trans_le hkept.length_le
  rw [hkept.getElem hlength]
  exact List.dropWhile_get_zero_not isBlank chars hlead

theorem trimChars_trimChars (chars : List Char) : trimChars (trimChars chars) = trimChars chars := by
  rw [trimChars_eq, dropWhile_trimChars, trimChars_eq, List.rdropWhile_idempotent]

theorem dropWhile_isBlank_eq_self_iff {chars : List Char} :
    chars.dropWhile isBlank = chars ↔ ∀ c ∈ chars.head?, isBlank c = false := by
  rw [List.dropWhile_eq_self_iff]
  cases chars with
  | nil => simp
  | cons c rest => simp

/-- What is kept of characters when blanks are taken off both ends until there are none. -/
structure TrimmedTo (chars kept : List Char) : Prop where
  around : ∃ before after, chars = before ++ (kept ++ after) ∧
    (∀ c ∈ before, isBlank c = true) ∧ ∀ c ∈ after, isBlank c = true
  first : ∀ c ∈ kept.head?, isBlank c = false
  last : ∀ c ∈ kept.getLast?, isBlank c = false

theorem trimmedTo_trimChars (chars : List Char) : TrimmedTo chars (trimChars chars) where
  around := by
    refine ⟨chars.takeWhile isBlank, (chars.dropWhile isBlank).rtakeWhile isBlank, ?_,
      fun _ ↦ List.mem_takeWhile_imp, fun _ ↦ List.mem_rtakeWhile_imp⟩
    rw [trimChars_eq, List.rdropWhile_append_rtakeWhile, List.takeWhile_append_dropWhile]
  first := dropWhile_isBlank_eq_self_iff.1 (dropWhile_trimChars chars)
  last := by
    rw [← List.head?_reverse, ← dropWhile_isBlank_eq_self_iff, trimChars, List.reverse_reverse,
      List.dropWhile_idempotent]

/-- There is only one way to take all blanks off. -/
theorem trimChars_of_trimmedTo {chars kept : List Char} (h : TrimmedTo chars kept) :
    trimChars chars = kept := by
  obtain ⟨before, after, rfl, hbefore, hafter⟩ := h.around
  have hfirst := dropWhile_isBlank_eq_self_iff.2 h.first
  have hlast := h.last
  rw [← List.head?_reverse, ← dropWhile_isBlank_eq_self_iff] at hlast
  rw [trimChars, List.dropWhile_append_of_pos hbefore, List.dropWhile_append, hfirst]
  cases kept with
  | nil =>
    rw [List.isEmpty_nil, if_pos rfl, List.dropWhile_eq_nil_iff.2 hafter]
    rfl
  | cons c rest =>
    have hafter' : ∀ c ∈ after.reverse, isBlank c = true :=
      fun c hmem ↦ hafter c (List.mem_reverse.1 hmem)
    rw [List.isEmpty_cons, if_neg Bool.false_ne_true, List.reverse_append,
      List.dropWhile_append_of_pos hafter', hlast, List.reverse_reverse]

/-- To trim is to take off all blanks at both ends and nothing else. -/
theorem trimChars_eq_iff {chars kept : List Char} :
    trimChars chars = kept ↔ TrimmedTo chars kept :=
  ⟨fun heq ↦ heq ▸ trimmedTo_trimChars chars, trimChars_of_trimmedTo⟩

theorem trim_trim (text : String) : trim (trim text) = trim text := by
  rw [trim, trim, String.toList_ofList, trimChars_trimChars]

/-- So the pieces of a text joined by the separator are the text again. -/
theorem pieces_eq_splitOn (separator : Char) (chars : List Char) :
    pieces separator chars = chars.splitOn separator := by
  induction chars with
  | nil => rfl
  | cons c rest ih =>
    rw [pieces, List.splitOn_cons_eq_if_modifyHead, ih]
    simp only [beq_iff_eq]
    split
    · rfl
    · cases hpieces : rest.splitOn separator with
      | nil => exact absurd hpieces (List.splitOn_ne_nil _ _)
      | cons piece more => rfl

theorem not_mem_of_mem_pieces {separator : Char} {chars piece : List Char}
    (h : piece ∈ pieces separator chars) : separator ∉ piece := by
  induction chars generalizing piece with
  | nil =>
    rw [List.mem_singleton.1 h]
    exact List.not_mem_nil
  | cons c rest ih =>
    rw [pieces] at h
    split at h
    · rcases List.mem_cons.1 h with rfl | h
      · exact List.not_mem_nil
      · exact ih h
    · next hother =>
      cases hpieces : pieces separator rest with
      | nil =>
        rw [hpieces] at h
        rw [List.mem_singleton.1 h, List.mem_singleton]
        exact Ne.symm hother
      | cons first more =>
        rw [hpieces] at h ih
        rcases List.mem_cons.1 h with rfl | h
        · rw [List.mem_cons, not_or]
          exact ⟨Ne.symm hother, ih List.mem_cons_self⟩
        · exact ih (List.mem_cons_of_mem _ h)

section LastSeparator

variable {separator : Char} {chars before after : List Char}

theorem cutAtLast_eq_none_iff : cutAtLast separator chars = none ↔ separator ∉ chars := by
  induction chars with
  | nil => simp [cutAtLast]
  | cons c rest ih =>
    rw [cutAtLast, List.mem_cons, not_or, ← ih]
    cases cutAtLast separator rest with
    | none => simp [eq_comm]
    | some cut => simp

theorem cutAtLast_append_cons (h : separator ∉ after) :
    cutAtLast separator (before ++ separator :: after) = some (before, after) := by
  induction before with
  | nil => rw [List.nil_append, cutAtLast, cutAtLast_eq_none_iff.2 h, if_pos rfl]
  | cons c before ih => rw [List.cons_append, cutAtLast, ih]

/-- The cut is at a separator with none after it. -/
theorem cutAtLast_eq_some_iff :
    cutAtLast separator chars = some (before, after) ↔
      chars = before ++ separator :: after ∧ separator ∉ after := by
  constructor
  · intro h
    induction chars generalizing before with
    | nil => cases h
    | cons c rest ih =>
      rw [cutAtLast] at h
      split at h
      · next first last hrest =>
        obtain ⟨rfl, rfl⟩ := Prod.mk.inj (Option.some.inj h)
        obtain ⟨rfl, hafter⟩ := ih hrest
        exact ⟨rfl, hafter⟩
      · next hnone =>
        obtain ⟨rfl, hcut⟩ := Option.ite_none_right_eq_some.1 h
        obtain ⟨rfl, rfl⟩ := Prod.mk.inj (Option.some.inj hcut)
        exact ⟨rfl, cutAtLast_eq_none_iff.1 hnone⟩
  · rintro ⟨rfl, hafter⟩
    exact cutAtLast_append_cons hafter

end LastSeparator

structure Numeral (sign digits : List Char) : Prop where
  sign_cases : sign = [] ∨ sign = ['+']
  nonempty : digits ≠ []
  digits : ∀ c ∈ digits, '0' ≤ c ∧ c ≤ '9'

theorem isDigit_iff {c : Char} : c.isDigit = true ↔ '0' ≤ c ∧ c ≤ '9' := by
  rw [Char.isDigit, Bool.and_eq_true, decide_eq_true_iff, decide_eq_true_iff]
  rfl

section Numerals

variable {limit value total : ℕ} {chars digits : List Char}

theorem within?_eq_some_iff : within? limit value = some total ↔ value = total ∧ total ≤ limit := by
  rw [within?, Option.ite_none_right_eq_some, Option.some_inj, and_comm]
  exact and_congr_right fun heq ↦ by rw [heq]

theorem appendDigit?_eq_some_iff {c : Char} :
    appendDigit? limit value c = some total ↔
      ('0' ≤ c ∧ c ≤ '9') ∧ 10 * value + (c.toNat - '0'.toNat) = total ∧ total ≤ limit := by
  rw [appendDigit?, ← isDigit_iff]
  simp only [Option.bind_eq_bind, Option.bind_eq_some_iff, within?_eq_some_iff,
    Option.ite_none_right_eq_some, digitValue]
  constructor
  · rintro ⟨_, ⟨rfl, _⟩, hdigit, htotal, hlimit⟩
    exact ⟨hdigit, htotal, hlimit⟩
  · rintro ⟨hdigit, htotal, hlimit⟩
    exact ⟨_, ⟨rfl, by omega⟩, hdigit, htotal, hlimit⟩

/-- More digits do not make a value smaller. -/
theorem le_ofDigitChars (digits : List Char) (value : ℕ) :
    value ≤ Nat.ofDigitChars 10 digits value := by
  induction digits generalizing value with
  | nil => exact Nat.le_refl value
  | cons c rest ih =>
    rw [Nat.ofDigitChars_cons]
    have hrest := ih (10 * value + (c.toNat - '0'.toNat))
    omega

/-- As values only grow, a limit on each value on the way is a limit on the last one. -/
theorem foldlM_appendDigit? (hvalue : value ≤ limit) :
    digits.foldlM (appendDigit? limit) value = some total ↔
      (∀ c ∈ digits, '0' ≤ c ∧ c ≤ '9') ∧ Nat.ofDigitChars 10 digits value = total ∧
        total ≤ limit := by
  induction digits generalizing value with
  | nil =>
    rw [List.foldlM_nil, Option.pure_def, Option.some_inj, Nat.ofDigitChars_nil]
    constructor
    · rintro rfl
      exact ⟨fun _ hmem ↦ absurd hmem List.not_mem_nil, rfl, hvalue⟩
    · exact fun h ↦ h.2.1
  | cons c rest ih =>
    rw [List.foldlM_cons, Option.bind_eq_bind, Option.bind_eq_some_iff, List.forall_mem_cons,
      Nat.ofDigitChars_cons]
    constructor
    · rintro ⟨next, hnext, hrest⟩
      obtain ⟨hc, rfl, hlimit⟩ := appendDigit?_eq_some_iff.1 hnext
      obtain ⟨hdigits, htotal⟩ := (ih hlimit).1 hrest
      exact ⟨⟨hc, hdigits⟩, htotal⟩
    · rintro ⟨⟨hc, hdigits⟩, htotal, hlimit⟩
      -- The value so far is no more than the whole, so reading has not stopped here.
      have hnext : 10 * value + (c.toNat - '0'.toNat) ≤ limit :=
        Nat.le_trans (le_ofDigitChars rest _) (htotal ▸ hlimit)
      exact ⟨_, appendDigit?_eq_some_iff.2 ⟨hc, rfl, hnext⟩, (ih hnext).2 ⟨hdigits, htotal, hlimit⟩⟩

theorem exists_sign (chars : List Char) :
    ∃ sign, (sign = [] ∨ sign = ['+']) ∧ chars = sign ++ withoutPlus chars := by
  rw [withoutPlus.eq_def]
  split
  · exact ⟨['+'], .inr rfl, rfl⟩
  · exact ⟨[], .inl rfl, rfl⟩

/-- A numeral has one sign at most, so none is left when it is taken off. -/
theorem Numeral.withoutPlus {sign : List Char} (h : Numeral sign digits) :
    withoutPlus (sign ++ digits) = digits := by
  rcases h.sign_cases with rfl | rfl
  · obtain ⟨c, rest, rfl⟩ := List.exists_cons_of_ne_nil h.nonempty
    have hplus : c ≠ '+' := by
      rintro rfl
      exact absurd (h.digits '+' List.mem_cons_self).1 (by decide)
    rw [List.nil_append, Text.withoutPlus.eq_2 _ fun _ heq ↦ hplus (List.cons.inj heq).1]
  · rfl

/-- What is read as a numeral is a run of digits behind a plus sign or none, with a value that does
not exceed the limit. -/
theorem numeral?_eq_some_iff :
    numeral? limit chars = some value ↔
      ∃ sign digits, chars = sign ++ digits ∧ Numeral sign digits ∧
        Nat.ofDigitChars 10 digits 0 = value ∧ value ≤ limit := by
  rw [numeral?, Option.ite_none_left_eq_some, foldlM_appendDigit? (Nat.zero_le limit)]
  constructor
  · rintro ⟨hnonempty, hdigits, hvalue⟩
    obtain ⟨sign, hsign, hchars⟩ := exists_sign chars
    exact ⟨sign, _, hchars, ⟨hsign, hnonempty, hdigits⟩, hvalue⟩
  · rintro ⟨sign, digits, rfl, hnumeral, hvalue⟩
    rw [hnumeral.withoutPlus]
    exact ⟨hnumeral.nonempty, hnumeral.digits, hvalue⟩

/-- Only zeros have the value zero. -/
theorem ofDigitChars_eq_zero_iff (hdigits : ∀ c ∈ digits, '0' ≤ c ∧ c ≤ '9') :
    Nat.ofDigitChars 10 digits 0 = 0 ↔ ∀ c ∈ digits, c = '0' := by
  induction digits with
  | nil => simp
  | cons c rest ih =>
    obtain ⟨hc, hrest⟩ := List.forall_mem_cons.1 hdigits
    rw [Nat.ofDigitChars_cons, Nat.mul_zero, Nat.zero_add, List.forall_mem_cons, ← ih hrest]
    constructor
    · intro hzero
      have hle := le_ofDigitChars rest (c.toNat - '0'.toNat)
      have hdigit : c.toNat - '0'.toNat = 0 := Nat.le_zero.1 (hzero ▸ hle)
      rw [hdigit] at hzero
      refine ⟨Char.le_antisymm ?_ hc.1, hzero⟩
      exact Nat.sub_eq_zero_iff_le.1 hdigit
    · rintro ⟨rfl, hzero⟩
      exact hzero

/-- Zeros, at least one of them, behind a plus sign or none. -/
def IsZero (chars : List Char) : Prop :=
  ∃ sign count, (sign = [] ∨ sign = ['+']) ∧ chars = sign ++ List.replicate (count + 1) '0'

/-- Zero is within every limit. -/
theorem numeral?_eq_zero_iff : numeral? limit chars = some 0 ↔ IsZero chars := by
  rw [numeral?_eq_some_iff]
  constructor
  · rintro ⟨sign, digits, rfl, hnumeral, hvalue, -⟩
    have hzeros := List.eq_replicate_of_mem ((ofDigitChars_eq_zero_iff hnumeral.digits).1 hvalue)
    obtain ⟨count, hcount⟩ := Nat.exists_eq_succ_of_ne_zero
      (List.length_eq_zero_iff.not.2 hnumeral.nonempty)
    exact ⟨sign, count, hnumeral.sign_cases, by rw [hzeros, hcount]⟩
  · rintro ⟨sign, count, hsign, rfl⟩
    have hzeros : ∀ c ∈ List.replicate (count + 1) '0', c = '0' :=
      fun c hmem ↦ List.eq_of_mem_replicate hmem
    have hdigits : ∀ c ∈ List.replicate (count + 1) '0', '0' ≤ c ∧ c ≤ '9' := by
      intro c hmem
      rw [hzeros c hmem]
      decide
    exact ⟨sign, _, rfl, ⟨hsign, List.cons_ne_nil _ _, hdigits⟩,
      (ofDigitChars_eq_zero_iff hdigits).2 hzeros, Nat.zero_le limit⟩

end Numerals

end ServiceMesh.Text
