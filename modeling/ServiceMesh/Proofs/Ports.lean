import Mathlib.Data.String.Basic
import ServiceMesh.Dialer
import ServiceMesh.Proofs.Text

/-!
# Addresses with a port

An address has a port if it ends in a colon and a number of 16 bits, with something before the
colon.  A number has no colon in it, so the colon is the last one, and what stands before it may have
others.  Addresses with a port are dialed and all others are not.
-/

namespace ServiceMesh

structure AddressParts (address host sign digits : String) : Prop where
  parts : address = host ++ ":" ++ sign ++ digits
  host_ne : host ≠ ""
  numeral : Text.Numeral sign.toList digits.toList
  port_le : Nat.ofDigitChars 10 digits.toList 0 ≤ 65535

/-- So the last colon of an address is the one before its port. -/
theorem Text.Numeral.colon_not_mem {sign digits : List Char} (h : Numeral sign digits) :
    ':' ∉ sign ++ digits := by
  intro hmem
  rcases List.mem_append.1 hmem with hmem | hmem
  · rcases h.sign_cases with rfl | rfl <;> simp at hmem
  · exact absurd (h.digits ':' hmem).2 (by decide)

theorem toList_join (host sign digits : String) :
    (host ++ ":" ++ sign ++ digits).toList =
      host.toList ++ ':' :: (sign.toList ++ digits.toList) := by
  simp

/-- The host and the port of an address are those of its parts. -/
theorem hostAndPort?_eq_some_iff {address host : String} {port : ℕ} :
    hostAndPort? address = some (host, port) ↔
      ∃ sign digits, AddressParts address host sign digits ∧
        Nat.ofDigitChars 10 digits.toList 0 = port := by
  constructor
  · intro h
    rw [hostAndPort?] at h
    split at h
    · cases h
    · next before after hcut =>
      obtain ⟨hbefore, hport⟩ := Option.ite_none_left_eq_some.1 h
      obtain ⟨value, hvalue, hpair⟩ := Option.map_eq_some_iff.1 hport
      obtain ⟨rfl, rfl⟩ := Prod.mk.inj hpair
      obtain ⟨haddress, -⟩ := Text.cutAtLast_eq_some_iff.1 hcut
      obtain ⟨sign, digits, rfl, hnumeral, hdigits, hle⟩ := Text.numeral?_eq_some_iff.1 hvalue
      refine ⟨String.ofList sign, String.ofList digits, ?_, by rwa [String.toList_ofList]⟩
      constructor
      case parts =>
        rw [← String.toList_inj, toList_join, haddress]
        simp only [String.toList_ofList]
      case host_ne =>
        rwa [← String.toList_inj.ne, String.toList_ofList]
      case numeral =>
        simpa only [String.toList_ofList] using hnumeral
      case port_le =>
        rw [String.toList_ofList, hdigits]
        exact hle
  · rintro ⟨sign, digits, h, rfl⟩
    have hcut : Text.cutAtLast ':' address.toList =
        some (host.toList, sign.toList ++ digits.toList) := by
      rw [h.parts, toList_join]
      exact Text.cutAtLast_append_cons h.numeral.colon_not_mem
    have hhost : host.toList ≠ [] := String.toList_inj.ne.2 h.host_ne
    have hport : Text.numeral? (UInt16.size - 1) (sign.toList ++ digits.toList) =
        some (Nat.ofDigitChars 10 digits.toList 0) :=
      Text.numeral?_eq_some_iff.2 ⟨_, _, rfl, h.numeral, rfl, h.port_le⟩
    simp only [hostAndPort?, hcut, if_neg hhost, hport, Option.map_some, String.ofList_toList]

theorem hasPort_iff {address : String} :
    hasPort address = true ↔ ∃ host sign digits, AddressParts address host sign digits := by
  rw [hasPort, Option.isSome_iff_exists]
  simp only [Prod.exists, hostAndPort?_eq_some_iff]
  constructor
  · rintro ⟨host, _, sign, digits, h, _⟩
    exact ⟨host, sign, digits, h⟩
  · rintro ⟨host, sign, digits, h⟩
    exact ⟨host, _, sign, digits, h, rfl⟩

/-- Only the network could tell the same of an address with a port. -/
theorem dial_eq_missing_port_iff {address : String} {attempt : Attempt} :
    dial address attempt = .down address "missing port" ↔
      hasPort address = false ∨ attempt = .failed "missing port" := by
  unfold dial
  cases hasPort address with
  | false => simp
  | true => cases attempt <;> simp

/-- An address has a port just if it is a host that is not empty, a colon, a plus sign or none, and
digits, at least one of them, whose value is at most 65535.  A dial reports that the port is missing
just of all other addresses, unless the network itself fails with these words. -/
theorem missing_ports_are_reported (address : String) :
    (hasPort address = true ↔ ∃ host sign digits, AddressParts address host sign digits) ∧
    ∀ attempt, dial address attempt = .down address "missing port" ↔
      (¬ ∃ host sign digits, AddressParts address host sign digits) ∨
        attempt = .failed "missing port" := by
  refine ⟨hasPort_iff, fun attempt ↦ ?_⟩
  rw [← hasPort_iff, Bool.not_eq_true]
  exact dial_eq_missing_port_iff

example : hasPort "fe80::1:+0008080" = true := by decide +kernel

end ServiceMesh
