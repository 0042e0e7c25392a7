import Mathlib.Data.List.Basic

/-!
# Hosts and ports

A proxy is configured by a text with its host and its port.  The text is split
at the first colon, so that a host with a colon in it cannot be read back.
-/

namespace ConjureRuntime.Config

structure HostAndPort where
  host : String
  port : UInt16
  deriving DecidableEq, Repr

inductive DeError where
  | invalidValue (unexpected expected : String)
  | custom (message : String)
  deriving DecidableEq, Repr

/-- `parse::<u16>`, without its errors. -/
def parseU16 (text : List Char) : Option UInt16 :=
  let digits := if text.head? = some '+' then text.tail else text
  if digits ≠ [] ∧ digits.all Char.isDigit ∧
      Nat.ofDigitChars 10 digits 0 < UInt16.size then
    some (UInt16.ofNat (Nat.ofDigitChars 10 digits 0))
  else none

namespace HostAndPort

def new (host : String) (port : UInt16) : HostAndPort := ⟨host, port⟩

def display (hostAndPort : HostAndPort) : String :=
  hostAndPort.host ++ ":" ++ toString hostAndPort.port

def expected : String := "a host:port identifier"

/-- `string` is what `String::deserialize` returns. -/
def deserialize (string : Except DeError String) :
    Except DeError HostAndPort :=
  match string with
  | .error error => .error error
  | .ok s =>
      match s.toList.idxOf? ':' with
      | some idx =>
          match parseU16 (s.toList.drop (idx + 1)) with
          | some port => .ok ⟨String.ofList (s.toList.take idx), port⟩
          | none => .error (.invalidValue s expected)
      | none => .error (.invalidValue s expected)

end HostAndPort

/-! ## Ports -/

theorem isDigit_of_mem_toDigits {n : Nat} {c : Char}
    (h : c ∈ Nat.toDigits 10 n) : c.isDigit = true :=
  Nat.isDigit_of_mem_toDigits (by decide) (by decide) h

theorem parseU16_toString (port : UInt16) :
    parseU16 (toString port).toList = some port := by
  have htext : (toString port).toList = Nat.toDigits 10 port.toNat :=
    Nat.toList_repr
  have hsign : (Nat.toDigits 10 port.toNat).head? ≠ some '+' := by
    intro hplus
    have := isDigit_of_mem_toDigits (List.mem_of_head? hplus)
    exact absurd this (by decide)
  have hdigits : (Nat.toDigits 10 port.toNat).all Char.isDigit = true :=
    List.all_eq_true.mpr fun _ hc => isDigit_of_mem_toDigits hc
  unfold parseU16
  rw [htext, if_neg hsign]
  simp only [Nat.ofDigitChars_ten_toDigits]
  rw [if_pos ⟨Nat.toDigits_ne_nil, hdigits, port.toNat_lt_size⟩,
    UInt16.ofNat_toNat]

/-! ## Texts -/

theorem idxOf?_first {l r : List Char} {c : Char} (h : c ∉ l) :
    (l ++ c :: r).idxOf? c = some l.length := by
  induction l with
  | nil => simp [List.idxOf?_cons]
  | cons d l ih =>
      rw [List.mem_cons, not_or] at h
      simp [List.idxOf?_cons, ih h.2, Ne.symm h.1]

theorem drop_first (l r : List Char) (c : Char) :
    (l ++ c :: r).drop (l.length + 1) = r := by
  rw [← List.drop_drop, List.drop_left]
  rfl

namespace HostAndPort

variable {host text : List Char} {s : String}

theorem deserialize_port {port : UInt16} (hs : s.toList = host ++ ':' :: text)
    (hhost : ':' ∉ host) (hport : parseU16 text = some port) :
    deserialize (.ok s) = .ok ⟨String.ofList host, port⟩ := by
  unfold deserialize
  simp only [hs, idxOf?_first hhost, drop_first, hport, List.take_left]

theorem deserialize_no_port (hs : s.toList = host ++ ':' :: text)
    (hhost : ':' ∉ host) (hport : parseU16 text = none) :
    deserialize (.ok s) = .error (.invalidValue s expected) := by
  unfold deserialize
  simp only [hs, idxOf?_first hhost, drop_first, hport]

theorem display_toList (hostAndPort : HostAndPort) :
    hostAndPort.display.toList = hostAndPort.host.toList ++
      ':' :: (toString hostAndPort.port).toList := by
  simp [display]

/-! ## Round trips -/

theorem deserialize_display {hostAndPort : HostAndPort}
    (h : ':' ∉ hostAndPort.host.toList) :
    deserialize (.ok hostAndPort.display) = .ok hostAndPort := by
  rw [deserialize_port hostAndPort.display_toList h
    (parseU16_toString hostAndPort.port), String.ofList_toList]

theorem colon_not_mem_of_deserialize {string : Except DeError String}
    {hostAndPort : HostAndPort}
    (h : deserialize string = .ok hostAndPort) :
    ':' ∉ hostAndPort.host.toList := by
  cases string with
  | error error => cases h
  | ok s =>
      by_cases hcolon : ':' ∈ s.toList
      · obtain ⟨host, text, hs, hhost⟩ := List.eq_append_cons_of_mem hcolon
        cases hport : parseU16 text with
        | some port =>
            rw [deserialize_port hs hhost hport] at h
            cases h
            simpa using hhost
        | none =>
            rw [deserialize_no_port hs hhost hport] at h
            cases h
      · unfold deserialize at h
        simp only [List.idxOf?_eq_none_iff.mpr hcolon] at h
        cases h

/-- What is displayed for a host and a port is read back as them exactly if
the host has no colon. -/
theorem round_trip_iff (host : String) (port : UInt16) :
    deserialize (.ok (new host port).display) = .ok (new host port) ↔
      ':' ∉ host.toList := by
  constructor
  · exact colon_not_mem_of_deserialize
  · intro h
    exact deserialize_display h

/-- An address of a proxy that can be built but not configured. -/
theorem bracketed_address_is_refused :
    (new "[::1]" 8080).display = "[::1]:8080" ∧
      deserialize (.ok (new "[::1]" 8080).display) =
        .error (.invalidValue "[::1]:8080" "a host:port identifier") := by
  decide

end HostAndPort

end ConjureRuntime.Config
