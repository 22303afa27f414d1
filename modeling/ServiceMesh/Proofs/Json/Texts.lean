import Mathlib.Data.List.Basic
import Mathlib.Tactic.NormNum
import ServiceMesh.Proofs.Json.Accepted
import ServiceMesh.Proofs.Text.Utf8
import ServiceMesh.Wire.Basic

/-!
# Texts that are written and read

A JSON string may be spelled in many ways.  A spelling consists of bytes that stand for themselves
and of escapes, and a reader takes it for the bytes that it spells and accepts nothing else.  What
is written of a text is one of its spellings, so it is read back as that text.
-/

namespace ServiceMesh.Json

open String (utf8EncodeChar)

def encoded (written : Written) : Bytes := written.flatMap utf8EncodeChar

theorem bytes_ofList_written (written : Written) :
    bytes (String.ofList written) = encoded written :=
  bytes_ofList written

@[simp] theorem encoded_nil : encoded [] = [] := rfl

@[simp] theorem encoded_append (written more : Written) :
    encoded (written ++ more) = encoded written ++ encoded more := List.flatMap_append

theorem encoded_cons (c : Char) (written : Written) :
    encoded (c :: written) = utf8EncodeChar c ++ encoded written := List.flatMap_cons

/-- A character of ASCII is one byte. -/
theorem utf8EncodeChar_ascii {c : Char} (h : c.toNat < 128) : utf8EncodeChar c = [byte c] := by
  have hle : c.val.toNat ≤ 127 := Nat.le_of_lt_succ h
  simp only [utf8EncodeChar, if_pos hle, byte, Char.toUInt8]
  congr 1

theorem encoded_cons_ascii {c : Char} (h : c.toNat < 128) (written : Written) :
    encoded (c :: written) = byte c :: encoded written := by
  rw [encoded_cons, utf8EncodeChar_ascii h]
  rfl

/-- The bytes of a text are read back as the text. -/
theorem fromUTF8?_bytes (text : String) :
    String.fromUTF8? ⟨(bytes text).toArray⟩ = some text := by
  have hbytes : (⟨(bytes text).toArray⟩ : ByteArray) = text.toByteArray := rfl
  rw [hbytes, String.fromUTF8?, dif_pos text.isValidUTF8]
  rfl

def isPlain (b : UInt8) : Bool := b ≠ byte '"' && b ≠ byte '\\' && byte ' ' ≤ b

def escapeLetters : List (Char × Char) :=
  [('"', '"'), ('\\', '\\'), ('/', '/'), ('b', '\x08'), ('f', '\x0c'), ('n', '\n'), ('r', '\r'),
    ('t', '\t')]

/-- A byte that shows a hexadecimal digit, in either case. -/
def ShowsDigit (b : UInt8) (n : ℕ) : Prop :=
  n < 16 ∧ (b = byte (Nat.digitChar n) ∨ b = byte (Nat.digitChar n).toUpper)

/-- Four hexadecimal digits that show a code unit. -/
inductive ShowsUnit : Bytes → ℕ → Prop where
  | digits {a b c d : UInt8} {i j k l : ℕ} (ha : ShowsDigit a i) (hb : ShowsDigit b j)
      (hc : ShowsDigit c k) (hd : ShowsDigit d l) :
      ShowsUnit [a, b, c, d] (((i * 16 + j) * 16 + k) * 16 + l)

/-- What may follow a backslash, and the character that is meant: a letter, a code unit, or the two
code units of UTF-16 if one cannot hold the character. -/
inductive Escapes : Bytes → Char → Prop where
  | letter {letter c : Char} (hletter : (letter, c) ∈ escapeLetters) : Escapes [byte letter] c
  | unit {digits : Bytes} {c : Char} (hunit : ShowsUnit digits c.toNat) :
      Escapes (byte 'u' :: digits) c
  | pair {leading trailing : Bytes} {c : Char} (hwide : 0x10000 ≤ c.toNat)
      (hleading : ShowsUnit leading (0xD800 + (c.toNat - 0x10000) / 0x400))
      (htrailing : ShowsUnit trailing (0xDC00 + (c.toNat - 0x10000) % 0x400)) :
      Escapes (byte 'u' :: leading ++ byte '\\' :: byte 'u' :: trailing) c

theorem shortEscape_letter {letter c : Char} (h : (letter, c) ∈ escapeLetters) :
    shortEscape (byte letter) = some c := by
  have hall : ∀ escape ∈ escapeLetters, shortEscape (byte escape.1) = some escape.2 := by decide
  exact hall (letter, c) h

theorem ShowsDigit.hexDigit {b : UInt8} {n : ℕ} (h : ShowsDigit b n) : hexDigit b = some n := by
  have hall : ∀ n < 16, Json.hexDigit (byte (Nat.digitChar n)) = some n ∧
      Json.hexDigit (byte (Nat.digitChar n).toUpper) = some n := by decide
  obtain ⟨hlt, rfl | rfl⟩ := h
  · exact (hall n hlt).1
  · exact (hall n hlt).2

/-- Four digits are read as the code unit that they show, whatever follows. -/
theorem ShowsUnit.codeUnit {digits : Bytes} {n : ℕ} (h : ShowsUnit digits n) (rest : Bytes) :
    codeUnit (digits ++ rest) = .ok (n, rest) := by
  obtain ⟨ha, hb, hc, hd⟩ := h
  simp only [List.cons_append, List.nil_append, Json.codeUnit, ha.hexDigit, hb.hexDigit,
    hc.hexDigit, hd.hexDigit]

/-- No character is a surrogate. -/
theorem toNat_not_surrogate (c : Char) : c.toNat < 0xD800 ∨ 0xDFFF < c.toNat ∧ c.toNat < 0x110000 :=
  c.valid

/-- An escape is read as the character that it stands for, whatever follows. -/
theorem Escapes.escape {form : Bytes} {c : Char} (h : Escapes form c) (rest : Bytes) :
    escape (form ++ rest) = .ok (c, rest) := by
  have hu : shortEscape (byte 'u') = none := by decide
  cases h with
  | letter hletter =>
    simp only [List.singleton_append, Json.escape, shortEscape_letter hletter]
  | unit hunit =>
    have hchar := toNat_not_surrogate c
    have htrailing : isTrailing c.toNat = false := by
      simp only [isTrailing, Bool.and_eq_false_iff, decide_eq_false_iff_not]
      omega
    have hleading : isLeading c.toNat = false := by
      simp only [isLeading, Bool.and_eq_false_iff, decide_eq_false_iff_not]
      omega
    simp only [List.cons_append, Json.escape, hu, if_true, unicodeEscape, hunit.codeUnit, bind,
      Except.bind, htrailing, hleading, Bool.false_eq_true, if_false, pure, Except.pure,
      Char.ofNat_toNat]
  | @pair leading trailing _ hwide hleading htrailing =>
    have hchar := toNat_not_surrogate c
    have hfirst : isTrailing (0xD800 + (c.toNat - 0x10000) / 0x400) = false := by
      simp only [isTrailing, Bool.and_eq_false_iff, decide_eq_false_iff_not]
      omega
    have hsecond : isLeading (0xD800 + (c.toNat - 0x10000) / 0x400) = true := by
      simp only [isLeading, Bool.and_eq_true, decide_eq_true_eq]
      omega
    have hthird : isTrailing (0xDC00 + (c.toNat - 0x10000) % 0x400) = true := by
      simp only [isTrailing, Bool.and_eq_true, decide_eq_true_eq]
      omega
    have hjoined : joinSurrogates (0xD800 + (c.toNat - 0x10000) / 0x400)
        (0xDC00 + (c.toNat - 0x10000) % 0x400) = c := by
      have hcode : 0x10000 + (0xD800 + (c.toNat - 0x10000) / 0x400 - 0xD800) * 0x400 +
          (0xDC00 + (c.toNat - 0x10000) % 0x400 - 0xDC00) = c.toNat := by omega
      rw [joinSurrogates, hcode, Char.ofNat_toNat]
    have hword : expectWord [byte '\\', byte 'u']
        (byte '\\' :: byte 'u' :: (trailing ++ rest)) = .ok (trailing ++ rest) := rfl
    simp only [List.cons_append, List.append_assoc, Json.escape, hu, if_true, unicodeEscape,
      hleading.codeUnit, htrailing.codeUnit, hword, bind, Except.bind, hfirst, hsecond, hthird,
      hjoined, Bool.false_eq_true, if_false, pure, Except.pure]

/-- What is spelled, and the bytes that are meant by it. -/
inductive Spells : Bytes → Bytes → Prop where
  | nil : Spells [] []
  | plain {b : UInt8} {spelled held : Bytes} (hplain : isPlain b = true)
      (hrest : Spells spelled held) : Spells (b :: spelled) (b :: held)
  | escape {form spelled held : Bytes} {c : Char} (hform : Escapes form c)
      (hrest : Spells spelled held) :
      Spells (byte '\\' :: form ++ spelled) (utf8EncodeChar c ++ held)

/-- A spelling is read up to the closing quote, one step for each of its bytes at most. -/
theorem Spells.textBytes {spelled held : Bytes} (h : Spells spelled held) {steps : Bytes}
    (hsteps : spelled.length < steps.length) (rest : Bytes) :
    textBytes steps (spelled ++ byte '"' :: rest) = .ok (held, rest) := by
  induction h generalizing steps with
  | nil =>
    obtain _ | ⟨step, steps⟩ := steps
    · cases hsteps
    · rfl
  | @plain b spelled held hplain hrest ih =>
    obtain _ | ⟨step, steps⟩ := steps
    · cases hsteps
    · simp only [isPlain, Bool.and_eq_true, decide_eq_true_eq] at hplain
      obtain ⟨⟨hquote, hslash⟩, hspace⟩ := hplain
      have hnext := ih (Nat.lt_of_succ_lt_succ hsteps)
      rw [List.cons_append, Json.textBytes, if_neg hquote, if_neg hslash,
        if_neg (UInt8.not_lt.2 hspace), hnext]
      rfl
  | @escape form spelled held c hform hrest ih =>
    obtain _ | ⟨step, steps⟩ := steps
    · cases hsteps
    · have hshorter : spelled.length < steps.length := by
        rw [List.length_append, List.length_cons, List.length_cons] at hsteps
        omega
      have hslash : byte '\\' ≠ byte '"' := by decide
      rw [List.append_assoc, List.cons_append, Json.textBytes, if_neg hslash, if_pos rfl,
        hform.escape]
      simp only [bind, Except.bind, ih hshorter, pure, Except.pure]

theorem Spells.append {spelled held spelled' held' : Bytes} (h : Spells spelled held)
    (h' : Spells spelled' held') : Spells (spelled ++ spelled') (held ++ held') := by
  induction h with
  | nil => exact h'
  | plain hplain _ ih => exact .plain hplain ih
  | escape hform _ ih =>
    rw [List.append_assoc, List.append_assoc]
    exact .escape hform ih

/-- Bytes that need no escape spell themselves. -/
theorem Spells.of_plain {spelled : Bytes} (h : ∀ b ∈ spelled, isPlain b = true) :
    Spells spelled spelled := by
  induction spelled with
  | nil => exact .nil
  | cons b spelled ih =>
    exact .plain (h b List.mem_cons_self) (ih fun b' hmem ↦ h b' (List.mem_cons_of_mem _ hmem))

/-- A spelling of a text, after the opening quote. -/
theorem Spells.textBody {spelled : Bytes} {text : String} (h : Spells spelled (bytes text))
    (rest : Bytes) : textBody (spelled ++ byte '"' :: rest) = .ok (text, rest) := by
  have hsteps : spelled.length < (spelled ++ byte '"' :: rest).length := by
    rw [List.length_append, List.length_cons]
    omega
  simp only [Json.textBody, h.textBytes hsteps, bind, Except.bind, fromUTF8?_bytes, pure,
    Except.pure]

/-! ## What is read -/

section Readings

variable {input rest : Bytes}

theorem showsDigit_of_hexDigit {b : UInt8} {n : ℕ} (h : hexDigit b = some n) : ShowsDigit b n := by
  have hall : ∀ k < 256, ∀ n ∈ hexDigit (UInt8.ofNat k), n < 16 ∧
      (UInt8.ofNat k = byte (Nat.digitChar n) ∨
        UInt8.ofNat k = byte (Nat.digitChar n).toUpper) := by decide +kernel
  have hb := hall b.toNat b.toNat_lt
  rw [UInt8.ofNat_toNat] at hb
  exact hb n h

theorem codeUnit_eq_ok {n : ℕ} (h : codeUnit input = .ok (n, rest)) :
    ∃ digits, ShowsUnit digits n ∧ input = digits ++ rest := by
  unfold codeUnit at h
  split at h
  · split at h
    · next ha hb hc hd =>
      cases h
      exact ⟨_, .digits (showsDigit_of_hexDigit ha) (showsDigit_of_hexDigit hb)
        (showsDigit_of_hexDigit hc) (showsDigit_of_hexDigit hd), rfl⟩
    · cases h
  · cases h

theorem expectWord_eq_ok {word : Bytes} (h : expectWord word input = .ok rest) :
    input = word ++ rest := by
  induction word generalizing input with
  | nil => exact Except.ok.inj h
  | cons b word ih =>
    obtain ⟨after, hbyte, h⟩ := bind_eq_ok_iff.1 h
    rw [expectByte_eq_ok hbyte, ih h]
    rfl

/-- Four digits cannot show more than 16 bits. -/
theorem ShowsUnit.lt {digits : Bytes} {n : ℕ} (h : ShowsUnit digits n) : n < 0x10000 := by
  obtain ⟨⟨hi, -⟩, ⟨hj, -⟩, ⟨hk, -⟩, ⟨hl, -⟩⟩ := h
  omega

theorem toNat_ofNat {n : ℕ} (h : n < 0xD800 ∨ 0xDFFF < n ∧ n < 0x110000) :
    (Char.ofNat n).toNat = n := by
  have hvalid : n.isValidChar := h
  rw [Char.ofNat, dif_pos hvalid]
  rfl

/-- Of short escapes only those of the table are accepted. -/
theorem shortEscape_eq_some {b : UInt8} {c : Char} (h : shortEscape b = some c) :
    ∃ letter, (letter, c) ∈ escapeLetters ∧ b = byte letter := by
  unfold shortEscape at h
  repeat' split at h
  all_goals cases h
  all_goals
    next hb => exact ⟨_, by decide, hb⟩

/-- A code unit that is read is a character of its own, or the first of a pair. -/
theorem unicodeEscape_eq_ok {c : Char} (h : unicodeEscape input = .ok (c, rest)) :
    ∃ form, Escapes form c ∧ byte 'u' :: input = form ++ rest := by
  obtain ⟨⟨n, after⟩, hunit, hread⟩ := bind_eq_ok_iff.1 h
  obtain ⟨digits, hdigits, rfl⟩ := codeUnit_eq_ok hunit
  have hn := hdigits.lt
  dsimp only at hread
  split at hread
  · cases hread
  · next htrailing =>
    simp only [isTrailing, Bool.and_eq_true, decide_eq_true_eq] at htrailing
    split at hread
    · next hleading =>
      simp only [isLeading, Bool.and_eq_true, decide_eq_true_eq] at hleading
      obtain ⟨ahead, hword, hread⟩ := bind_eq_ok_iff.1 hread
      obtain ⟨⟨m, after⟩, hunit, hread⟩ := bind_eq_ok_iff.1 hread
      dsimp only at hread
      split at hread
      · next hsecond =>
        simp only [isTrailing, Bool.and_eq_true, decide_eq_true_eq] at hsecond
        obtain ⟨rfl, rfl⟩ := Prod.mk.inj (pure_eq_ok_iff.1 hread)
        obtain ⟨more, hmore, rfl⟩ := codeUnit_eq_ok hunit
        obtain rfl := expectWord_eq_ok hword
        have hm := hmore.lt
        have hchar : (joinSurrogates n m).toNat =
            0x10000 + (n - 0xD800) * 0x400 + (m - 0xDC00) := toNat_ofNat (.inr (by omega))
        have hfirst : 0xD800 + ((joinSurrogates n m).toNat - 0x10000) / 0x400 = n := by omega
        have hlast : 0xDC00 + ((joinSurrogates n m).toNat - 0x10000) % 0x400 = m := by omega
        refine ⟨_, .pair (by omega) (hfirst.symm ▸ hdigits) (hlast.symm ▸ hmore), ?_⟩
        simp only [List.cons_append, List.append_assoc, List.nil_append]
      · cases hread
    · next hleading =>
      simp only [isLeading, Bool.and_eq_true, decide_eq_true_eq] at hleading
      cases hread
      have hchar : (Char.ofNat n).toNat = n := toNat_ofNat (by omega)
      exact ⟨byte 'u' :: digits, .unit (hchar.symm ▸ hdigits), rfl⟩

theorem escape_eq_ok {c : Char} (h : escape input = .ok (c, rest)) :
    ∃ form, Escapes form c ∧ input = form ++ rest := by
  unfold escape at h
  split at h
  · cases h
  · split at h
    · next hletter =>
      cases h
      obtain ⟨letter, hmem, rfl⟩ := shortEscape_eq_some hletter
      exact ⟨_, .letter hmem, rfl⟩
    · split at h
      · next hu =>
        subst hu
        exact unicodeEscape_eq_ok h
      · cases h

/-- Whatever is read as a text spells the bytes that are kept of it. -/
theorem textBytes_eq_ok {steps held : Bytes} (h : textBytes steps input = .ok (held, rest)) :
    ∃ spelled, Spells spelled held ∧ input = spelled ++ byte '"' :: rest := by
  induction steps generalizing input held with
  | nil => cases h
  | cons step steps ih =>
    obtain _ | ⟨b, input⟩ := input
    · cases h
    rw [textBytes] at h
    split at h
    · next hquote =>
      cases h
      exact ⟨[], .nil, by rw [hquote]; rfl⟩
    · next hquote =>
      split at h
      · next hslash =>
        obtain ⟨⟨c, ahead⟩, hescape, h⟩ := bind_eq_ok_iff.1 h
        obtain ⟨⟨held, after⟩, hmore, h⟩ := bind_eq_ok_iff.1 h
        cases h
        obtain ⟨form, hform, rfl⟩ := escape_eq_ok hescape
        obtain ⟨spelled, hspells, rfl⟩ := ih hmore
        refine ⟨_, .escape hform hspells, ?_⟩
        rw [hslash, List.append_assoc, List.cons_append]
      · next hslash =>
        split at h
        · cases h
        · next hspace =>
          obtain ⟨⟨held, after⟩, hmore, h⟩ := bind_eq_ok_iff.1 h
          cases h
          obtain ⟨spelled, hspells, rfl⟩ := ih hmore
          have hplain : isPlain b = true := by
            simp only [isPlain, Bool.and_eq_true, decide_eq_true_eq]
            exact ⟨⟨hquote, hslash⟩, UInt8.not_lt.1 hspace⟩
          exact ⟨_, .plain hplain hspells, rfl⟩

/-- A text is read from its spellings, and from nothing else. -/
theorem textBody_eq_ok_iff {text : String} : textBody input = .ok (text, rest) ↔
    ∃ spelled, Spells spelled (bytes text) ∧ input = spelled ++ byte '"' :: rest := by
  constructor
  · intro h
    obtain ⟨⟨held, after⟩, hbytes, h⟩ := bind_eq_ok_iff.1 h
    dsimp only at h
    split at h
    · next held' hutf8 =>
      cases h
      obtain ⟨spelled, hspells, rfl⟩ := textBytes_eq_ok hbytes
      refine ⟨spelled, ?_, rfl⟩
      rw [String.fromUTF8?] at hutf8
      split at hutf8
      · cases hutf8
        exact hspells
      · cases hutf8
    · cases h
  · rintro ⟨spelled, hspells, rfl⟩
    exact hspells.textBody rest

end Readings

theorem showsDigit_digitChar {n : ℕ} (h : n < 16) : ShowsDigit (byte (Nat.digitChar n)) n :=
  ⟨h, .inl rfl⟩

/-- Control characters are written by their code unit. -/
theorem showsUnit_control {n : ℕ} (h : n < 32) :
    ShowsUnit [byte '0', byte '0', byte (Nat.digitChar (n / 16)), byte (Nat.digitChar (n % 16))]
      n := by
  have hzero : ShowsDigit (byte '0') 0 := showsDigit_digitChar (by omega)
  have hhigh := showsDigit_digitChar (show n / 16 < 16 by omega)
  have hlow := showsDigit_digitChar (show n % 16 < 16 by omega)
  have hunit : ((0 * 16 + 0) * 16 + n / 16) * 16 + n % 16 = n := by omega
  have hshows := ShowsUnit.digits hzero hzero hhigh hlow
  rwa [hunit] at hshows

theorem isPlain_iff (b : UInt8) :
    isPlain b = true ↔ b.toNat ≠ 34 ∧ b.toNat ≠ 92 ∧ 32 ≤ b.toNat := by
  have hquote : (byte '"').toNat = 34 := by decide
  have hslash : (byte '\\').toNat = 92 := by decide
  have hspace : (byte ' ').toNat = 32 := by decide
  simp only [isPlain, Bool.and_eq_true, decide_eq_true_eq, ne_eq, ← UInt8.toNat_inj,
    UInt8.le_iff_toNat_le, hquote, hslash, hspace, and_assoc]

/-- Characters that need no escape have no byte that would need one. -/
theorem isPlain_of_mem_utf8EncodeChar {c : Char} (hquote : c ≠ '"') (hslash : c ≠ '\\')
    (hspace : ¬ c < ' ') : ∀ b ∈ utf8EncodeChar c, isPlain b = true := by
  have hquote : c.val.toNat ≠ 34 := fun h ↦ hquote (Char.ext (UInt32.toNat_inj.1 h))
  have hslash : c.val.toNat ≠ 92 := fun h ↦ hslash (Char.ext (UInt32.toNat_inj.1 h))
  have hspace : 32 ≤ c.val.toNat := Nat.le_of_not_lt hspace
  simp only [utf8EncodeChar, isPlain_iff]
  split_ifs <;>
    simp only [List.mem_cons, List.not_mem_nil, or_false, forall_eq_or_imp, forall_eq,
      UInt8.toNat_ofNat', Nat.reducePow] <;>
    omega

theorem spells_letter {letter c : Char} (h : (letter, c) ∈ escapeLetters) :
    Spells (encoded ['\\', letter]) (utf8EncodeChar c) := by
  have hascii : ∀ escape ∈ escapeLetters, escape.1.toNat < 128 := by decide
  rw [encoded_cons_ascii (by decide), encoded_cons_ascii (hascii _ h)]
  have hspells := Spells.escape (.letter h) .nil
  rwa [List.append_nil, List.append_nil] at hspells

theorem spells_control {c : Char} (h : c < ' ') :
    Spells (encoded ['\\', 'u', '0', '0', Nat.digitChar (c.toNat / 16),
      Nat.digitChar (c.toNat % 16)]) (utf8EncodeChar c) := by
  have hlt : c.toNat < 32 := h
  have hdigit : ∀ n < 16, (Nat.digitChar n).toNat < 128 := by decide
  have hhigh := hdigit (c.toNat / 16) (by omega)
  have hlow := hdigit (c.toNat % 16) (by omega)
  have hspells := Spells.escape (.unit (showsUnit_control hlt)) .nil
  rw [List.append_nil, List.append_nil] at hspells
  rwa [encoded_cons_ascii (by decide), encoded_cons_ascii (by decide),
    encoded_cons_ascii (by decide), encoded_cons_ascii (by decide), encoded_cons_ascii hhigh,
    encoded_cons_ascii hlow, encoded_nil]

/-- A character is written as it is, by a letter, or by its code unit. -/
theorem spells_writeChar (c : Char) : Spells (encoded (writeChar c)) (utf8EncodeChar c) := by
  unfold writeChar
  split
  iterate 7 exact spells_letter (by decide)
  · next hquote hslash _ _ _ _ _ =>
    split
    · next hcontrol => exact spells_control hcontrol
    · next hspace =>
      have hchar : encoded [c] = utf8EncodeChar c := by
        rw [encoded_cons, encoded_nil, List.append_nil]
      rw [hchar]
      exact .of_plain (isPlain_of_mem_utf8EncodeChar hquote hslash hspace)

theorem spells_flatMap_writeChar (chars : List Char) :
    Spells (encoded (chars.flatMap writeChar)) (chars.flatMap utf8EncodeChar) := by
  induction chars with
  | nil => exact .nil
  | cons c chars ih =>
    rw [List.flatMap_cons, List.flatMap_cons, encoded_append]
    exact (spells_writeChar c).append ih

/-- What is written of a text spells it. -/
theorem spells_written (text : String) :
    Spells (encoded (text.toList.flatMap writeChar)) (bytes text) := by
  rw [bytes_eq_flatMap]
  exact spells_flatMap_writeChar text.toList

theorem encoded_writeText (text : String) :
    encoded (writeText text) =
      byte '"' :: encoded (text.toList.flatMap writeChar) ++ [byte '"'] := by
  rw [writeText, List.cons_append, encoded_cons_ascii (by decide), encoded_append,
    encoded_cons_ascii (by decide), encoded_nil]
  rfl

/-- A written text, after its opening quote. -/
theorem textBody_writeText (text : String) (rest : Bytes) :
    textBody (encoded (text.toList.flatMap writeChar) ++ byte '"' :: rest) = .ok (text, rest) :=
  (spells_written text).textBody rest

end ServiceMesh.Json
