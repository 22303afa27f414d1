import ServiceMesh.Proofs.Json.Texts

/-!
# Integers that are written and read

An integer is written in decimal, without leading zeros.  Nothing marks its end, so it is read back
only if what follows does not go on with the number.
-/

namespace ServiceMesh.Json

/-- What follows a value does not go on with a number. -/
def Delimited (rest : Bytes) : Prop :=
  ∀ b ∈ rest.head?, isDigit b = false ∧ b ≠ byte '.' ∧ b ≠ byte 'e' ∧ b ≠ byte 'E'

theorem delimited_nil : Delimited [] := fun _ h ↦ by cases h

theorem delimited_cons {b : UInt8} (hdigit : isDigit b = false) (hpoint : b ≠ byte '.')
    (hlower : b ≠ byte 'e') (hupper : b ≠ byte 'E') (rest : Bytes) : Delimited (b :: rest) := by
  intro b' hmem
  obtain rfl : b = b' := Option.some_inj.1 hmem
  exact ⟨hdigit, hpoint, hlower, hupper⟩

theorem toNat_byte {c : Char} (h : c.toNat < 128) : (byte c).toNat = c.toNat := by
  have hmod : (byte c).toNat = c.toNat % 256 := rfl
  rw [hmod, Nat.mod_eq_of_lt (by omega)]

theorem isDigit_iff (b : UInt8) : isDigit b = true ↔ 48 ≤ b.toNat ∧ b.toNat ≤ 57 := by
  have hzero : (byte '0').toNat = 48 := by decide
  have hnine : (byte '9').toNat = 57 := by decide
  simp only [isDigit, Bool.and_eq_true, decide_eq_true_eq, UInt8.le_iff_toNat_le, hzero, hnine]

theorem toNat_of_isDigit {c : Char} (h : c.isDigit = true) : 48 ≤ c.toNat ∧ c.toNat ≤ 57 := by
  simp only [Char.isDigit, Bool.and_eq_true, decide_eq_true_eq] at h
  exact h

theorem encoded_digits {chars : List Char} (h : ∀ c ∈ chars, c.isDigit = true) :
    encoded chars = chars.map byte := by
  induction chars with
  | nil => rfl
  | cons c chars ih =>
    have hc := toNat_of_isDigit (h c List.mem_cons_self)
    rw [encoded_cons_ascii (by omega), ih fun c' hmem ↦ h c' (List.mem_cons_of_mem _ hmem)]
    rfl

/-- A run of digits ends where something else follows. -/
theorem digits_append {run rest : Bytes} (hrun : ∀ b ∈ run, isDigit b = true)
    (hrest : ∀ b ∈ rest.head?, isDigit b = false) :
    digits (run ++ rest) = (run.map fun b ↦ b.toNat - (byte '0').toNat, rest) := by
  have htake : rest.takeWhile isDigit = [] := by
    cases rest with
    | nil => rfl
    | cons b rest => rw [List.takeWhile_cons_of_neg (by simp [hrest b rfl])]
  have hdrop : rest.dropWhile isDigit = rest := by
    cases rest with
    | nil => rfl
    | cons b rest => rw [List.dropWhile_cons_of_neg (by simp [hrest b rfl])]
  rw [digits, List.takeWhile_append_of_pos hrun, List.dropWhile_append_of_pos hrun, htake, hdrop,
    List.append_nil]

/-- Written digits are read as their values. -/
theorem digits_encoded {chars : List Char} (h : ∀ c ∈ chars, c.isDigit = true) {rest : Bytes}
    (hrest : Delimited rest) :
    digits (encoded chars ++ rest) = (chars.map fun c ↦ c.toNat - '0'.toNat, rest) := by
  have hdigit : ∀ b ∈ encoded chars, isDigit b = true := by
    rw [encoded_digits h, List.forall_mem_map]
    intro c hmem
    have hc := toNat_of_isDigit (h c hmem)
    rwa [isDigit_iff, toNat_byte (by omega)]
  rw [digits_append hdigit fun b hmem ↦ (hrest b hmem).1, encoded_digits h, List.map_map]
  refine Prod.ext (List.map_congr_left fun c hmem ↦ ?_) rfl
  have hc := toNat_of_isDigit (h c hmem)
  have hzero : (byte '0').toNat = '0'.toNat := by decide
  rw [Function.comp_apply, toNat_byte (by omega), hzero]

theorem isDigit_of_mem_decimal {n : ℕ} : ∀ c ∈ Nat.toDigits 10 n, c.isDigit = true :=
  fun _ ↦ Nat.isDigit_of_mem_toDigits (by omega) (by omega)

def decimal (n : ℕ) : List ℕ := (Nat.toDigits 10 n).map fun c ↦ c.toNat - '0'.toNat

/-- The digits of a number have the number for their value. -/
theorem digitsValue_decimal (n : ℕ) : digitsValue (decimal n) = n := by
  calc
    digitsValue (decimal n) = Nat.ofDigitChars 10 (Nat.toDigits 10 n) 0 := by
      rw [digitsValue, decimal, List.foldl_map, Nat.ofDigitChars_eq_foldl]
    _ = n := Nat.ofDigitChars_ten_toDigits

theorem decimal_of_lt {n : ℕ} (h : n < 10) : decimal n = [n] := by
  rw [decimal, Nat.toDigits_of_lt_base h, List.map_singleton]
  exact congrArg ([·]) (Nat.toNat_digitChar_sub_48_of_lt_ten h)

theorem decimal_of_ge {n : ℕ} (h : 10 ≤ n) : decimal n = decimal (n / 10) ++ [n % 10] := by
  rw [decimal, Nat.toDigits_of_base_le (by omega) h, List.map_append, List.map_singleton]
  congr 2
  exact Nat.toNat_digitChar_sub_48_of_lt_ten (Nat.mod_lt n (by omega))

theorem decimal_ne_nil (n : ℕ) : decimal n ≠ [] := by
  rw [decimal, ne_eq, List.map_eq_nil_iff]
  exact Nat.toDigits_ne_nil

/-- Only zero is written with a zero in front. -/
theorem eq_zero_of_decimal {n : ℕ} {rest : List ℕ} (h : decimal n = 0 :: rest) : n = 0 := by
  induction n using Nat.strong_induction_on generalizing rest with
  | _ n ih =>
    by_cases hsmall : n < 10
    · rw [decimal_of_lt hsmall] at h
      exact (List.cons.inj h).1
    · rw [decimal_of_ge (by omega)] at h
      cases hfirst : decimal (n / 10) with
      | nil => exact absurd hfirst (decimal_ne_nil _)
      | cons digit more =>
        rw [hfirst, List.cons_append] at h
        obtain ⟨rfl, _⟩ := List.cons.inj h
        have hzero := ih (n / 10) (by omega) hfirst
        omega

/-- A decimal has no leading zeros, which would be refused. -/
theorem wholeDigits_decimal (short : Fault) (n : ℕ) {rest : Bytes} (hrest : Delimited rest) :
    wholeDigits short (encoded (Nat.toDigits 10 n) ++ rest) = .ok (decimal n, rest) := by
  have hrun : digits (encoded (Nat.toDigits 10 n) ++ rest) = (decimal n, rest) :=
    digits_encoded isDigit_of_mem_decimal hrest
  have hsome : someDigits short (encoded (Nat.toDigits 10 n) ++ rest) = .ok (decimal n, rest) := by
    rw [someDigits, hrun]
    cases hdecimal : decimal n with
    | nil => exact absurd hdecimal (decimal_ne_nil n)
    | cons digit more => rfl
  simp only [wholeDigits, hsome, bind, Except.bind]
  split
  · next heq =>
    obtain ⟨hdecimal, rfl⟩ := Prod.mk.inj heq
    obtain rfl := eq_zero_of_decimal hdecimal
    rw [decimal_of_lt (by omega)] at hdecimal
    cases hdecimal
  · rfl

theorem fractionDigits_delimited (short : Fault) {rest : Bytes} (h : Delimited rest) :
    fractionDigits short rest = .ok ([], rest) := by
  cases rest with
  | nil => rfl
  | cons b rest => rw [fractionDigits, if_neg (h b rfl).2.1]

theorem exponentDigits_delimited (short : Fault) {rest : Bytes} (h : Delimited rest) :
    exponentDigits short rest = .ok (none, rest) := by
  cases rest with
  | nil => rfl
  | cons b rest =>
    obtain ⟨_, _, hlower, hupper⟩ := h b rfl
    have hletter : ¬ (b = byte 'e' ∨ b = byte 'E') := fun h ↦ h.elim hlower hupper
    simp only [exponentDigits, if_neg hletter]

/-- A decimal starts with a digit, and so neither with a blank nor with a sign. -/
theorem encoded_decimal_cons (n : ℕ) :
    ∃ b more, encoded (Nat.toDigits 10 n) = b :: more ∧ isDigit b = true := by
  rw [encoded_digits isDigit_of_mem_decimal]
  cases hdigits : Nat.toDigits 10 n with
  | nil => exact absurd hdigits Nat.toDigits_ne_nil
  | cons c chars =>
    have hmem : c ∈ Nat.toDigits 10 n := hdigits ▸ List.mem_cons_self
    have hc := toNat_of_isDigit (isDigit_of_mem_decimal c hmem)
    refine ⟨byte c, chars.map byte, rfl, ?_⟩
    rwa [isDigit_iff, toNat_byte (by omega)]

/-- A decimal is a numeral without fraction and exponent. -/
theorem numeral_natural (short : Fault) (n : ℕ) {rest : Bytes} (hrest : Delimited rest) :
    numeral short (encoded (Nat.toDigits 10 n) ++ rest) =
      .ok (⟨false, decimal n, [], none⟩, rest) := by
  have hwhole := wholeDigits_decimal short n hrest
  obtain ⟨b, more, hbytes, hdigit⟩ := encoded_decimal_cons n
  have hsign : b ≠ byte '-' := by
    rintro rfl
    cases hdigit
  rw [hbytes, List.cons_append] at hwhole ⊢
  simp only [numeral, if_neg hsign, bind, Except.bind, hwhole, fractionDigits_delimited short hrest,
    exponentDigits_delimited short hrest, pure, Except.pure]

theorem numeral_negative (short : Fault) (n : ℕ) {rest : Bytes} (hrest : Delimited rest) :
    numeral short (byte '-' :: encoded (Nat.toDigits 10 n) ++ rest) =
      .ok (⟨true, decimal n, [], none⟩, rest) := by
  have hwhole := wholeDigits_decimal short n hrest
  simp only [numeral, List.cons_append, if_true, bind, Except.bind, hwhole,
    fractionDigits_delimited short hrest, exponentDigits_delimited short hrest, pure, Except.pure]

/-- Up to 64 bits a decimal is an integer, and not a floating-point number. -/
theorem number_natural {n : ℕ} (h : n < 2 ^ 64) {rest : Bytes} (hrest : Delimited rest) :
    number (encoded (Nat.toDigits 10 n) ++ rest) = .ok (.integer n, rest) := by
  have hsize : n < UInt64.size := h
  have hvalue : Numeral.value? ⟨false, decimal n, [], none⟩ = some (.integer n) := by
    simp only [Numeral.value?, digitsValue_decimal, hsize, and_self, if_true]
  simp only [number, numeral_natural _ n hrest, bind, Except.bind, hvalue, pure, Except.pure]

/-- A sign before zero would make it a floating-point number, so zero is left out. -/
theorem number_negative {n : ℕ} (hne : n ≠ 0) (h : n ≤ 2 ^ 63) {rest : Bytes}
    (hrest : Delimited rest) :
    number (byte '-' :: encoded (Nat.toDigits 10 n) ++ rest) = .ok (.integer (-n), rest) := by
  have hsize : n ≤ Nat.pow 2 63 := h
  have hvalue : Numeral.value? ⟨true, decimal n, [], none⟩ = some (.integer (-n)) := by
    simp only [Numeral.value?, digitsValue_decimal, hne, hsize, Bool.true_eq_false, false_and,
      and_false, if_false, ne_eq, not_false_eq_true, and_self, if_true]
  simp only [number, numeral_negative _ n hrest, bind, Except.bind, hvalue, pure, Except.pure]

theorem writeInteger_of_nonneg {value : ℤ} (h : 0 ≤ value) :
    writeInteger value = Nat.toDigits 10 value.toNat := by
  rw [writeInteger, Int.toString_eq_repr, Int.repr_eq_if, if_pos h, Nat.toList_repr]

theorem writeInteger_of_neg {value : ℤ} (h : value < 0) :
    writeInteger value = '-' :: Nat.toDigits 10 (-value).toNat := by
  rw [writeInteger, Int.toString_eq_repr, Int.repr_eq_if, if_neg (by omega), String.toList_append,
    Nat.toList_repr]
  rfl

/-- A written integer begins with its sign or with a digit. -/
theorem encoded_writeInteger_cons (value : ℤ) :
    ∃ b more, encoded (writeInteger value) = b :: more ∧ (b = byte '-' ∨ isDigit b = true) := by
  rcases lt_or_ge value 0 with hneg | hnonneg
  · rw [writeInteger_of_neg hneg, encoded_cons_ascii (by decide)]
    exact ⟨_, _, rfl, .inl rfl⟩
  · rw [writeInteger_of_nonneg hnonneg]
    obtain ⟨b, more, hbytes, hdigit⟩ := encoded_decimal_cons value.toNat
    exact ⟨b, more, hbytes, .inr hdigit⟩

/-- An integer is read back as far as 64 bits hold it, with a sign or without. -/
theorem number_writeInteger {value : ℤ} (hlow : -2 ^ 63 ≤ value) (hhigh : value < 2 ^ 64)
    {rest : Bytes} (hrest : Delimited rest) :
    number (encoded (writeInteger value) ++ rest) = .ok (.integer value, rest) := by
  rcases lt_or_ge value 0 with hneg | hnonneg
  · have hvalue : -((-value).toNat : ℤ) = value := by omega
    rw [writeInteger_of_neg hneg, encoded_cons_ascii (by decide),
      number_negative (by omega) (by omega) hrest, hvalue]
  · have hvalue : (value.toNat : ℤ) = value := by omega
    rw [writeInteger_of_nonneg hnonneg, number_natural (by omega) hrest, hvalue]

section Readings

variable {input rest : Bytes} {short : Fault} (short' : Fault)

/-- What the lack of digits is called makes no difference to digits that are there. -/
theorem someDigits_eq_ok {run : List ℕ} (h : someDigits short input = .ok (run, rest)) :
    someDigits short' input = .ok (run, rest) ∧ rest.length < input.length := by
  rcases hdigits : digits input with ⟨run', rest'⟩
  rw [someDigits, hdigits] at h
  cases run' with
  | nil => cases rest' <;> cases h
  | cons digit run' =>
    cases h
    refine ⟨by rw [someDigits, hdigits], ?_⟩
    obtain ⟨htake, hdrop⟩ := Prod.mk.inj hdigits
    have htaken := congrArg List.length htake
    have hall := congrArg List.length (List.takeWhile_append_dropWhile (p := isDigit) (l := input))
    rw [hdrop, List.length_append] at hall
    simp only [List.length_map, List.length_cons] at htaken
    omega

theorem wholeDigits_eq_ok {run : List ℕ} (h : wholeDigits short input = .ok (run, rest)) :
    wholeDigits short' input = .ok (run, rest) ∧ rest.length < input.length := by
  obtain ⟨⟨run', rest'⟩, hdigits, h⟩ := bind_eq_ok_iff.1 h
  obtain ⟨hdigits', hshorter⟩ := someDigits_eq_ok short' hdigits
  split at h
  · cases h
  · next hzero =>
    cases h
    refine ⟨bind_eq_ok_iff.2 ⟨_, hdigits', ?_⟩, hshorter⟩
    split
    · next heq => exact absurd heq (hzero _ _ _)
    · rfl

theorem fractionDigits_eq_ok {run : List ℕ} (h : fractionDigits short input = .ok (run, rest)) :
    fractionDigits short' input = .ok (run, rest) ∧ rest.length ≤ input.length := by
  cases input with
  | nil =>
    cases h
    exact ⟨rfl, Nat.le_refl _⟩
  | cons b input =>
    rw [fractionDigits] at h ⊢
    split at h
    · next hpoint =>
      obtain ⟨hdigits, hshorter⟩ := someDigits_eq_ok short' h
      rw [if_pos hpoint, List.length_cons]
      exact ⟨hdigits, by omega⟩
    · next hpoint =>
      cases h
      exact ⟨if_neg hpoint, Nat.le_refl _⟩

theorem exponentDigits_eq_ok {exponent : Option (Bool × List ℕ)}
    (h : exponentDigits short input = .ok (exponent, rest)) :
    exponentDigits short' input = .ok (exponent, rest) ∧ rest.length ≤ input.length := by
  cases input with
  | nil =>
    cases h
    exact ⟨rfl, Nat.le_refl _⟩
  | cons b input =>
    simp only [exponentDigits] at h ⊢
    split at h
    · next hletter =>
      obtain ⟨⟨run, after⟩, hdigits, h⟩ := bind_eq_ok_iff.1 h
      cases h
      obtain ⟨hdigits', hshorter⟩ := someDigits_eq_ok short' hdigits
      rw [if_pos hletter]
      refine ⟨bind_eq_ok_iff.2 ⟨_, hdigits', rfl⟩, ?_⟩
      refine Nat.le_trans (Nat.le_of_lt (Nat.lt_of_lt_of_le hshorter ?_)) (Nat.le_succ _)
      -- a sign takes one byte more
      split
      · exact Nat.le_refl _
      · split_ifs
        · exact Nat.le_succ _
        · exact Nat.le_succ _
        · exact Nat.le_refl _
    · next hletter =>
      cases h
      exact ⟨if_neg hletter, Nat.le_refl _⟩

/-- Readers that name a fault differently agree on every numeral. -/
theorem numeral_eq_ok {read : Numeral} (h : numeral short input = .ok (read, rest)) :
    numeral short' input = .ok (read, rest) ∧ rest.length < input.length := by
  obtain ⟨⟨whole, afterWhole⟩, hwhole, h⟩ := bind_eq_ok_iff.1 h
  obtain ⟨⟨fraction, afterFraction⟩, hfraction, h⟩ := bind_eq_ok_iff.1 h
  obtain ⟨⟨exponent, afterExponent⟩, hexponent, h⟩ := bind_eq_ok_iff.1 h
  cases h
  obtain ⟨hwhole', hshorter⟩ := wholeDigits_eq_ok short' hwhole
  obtain ⟨hfraction', hfractionShorter⟩ := fractionDigits_eq_ok short' hfraction
  obtain ⟨hexponent', hexponentShorter⟩ := exponentDigits_eq_ok short' hexponent
  refine ⟨bind_eq_ok_iff.2 ⟨_, hwhole', bind_eq_ok_iff.2 ⟨_, hfraction', bind_eq_ok_iff.2
    ⟨_, hexponent', rfl⟩⟩⟩, ?_⟩
  refine Nat.lt_of_le_of_lt (hexponentShorter.trans hfractionShorter)
    (Nat.lt_of_lt_of_le hshorter ?_)
  split
  · exact Nat.le_refl _
  · split_ifs
    · exact Nat.le_succ _
    · exact Nat.le_refl _

end Readings

end ServiceMesh.Json
