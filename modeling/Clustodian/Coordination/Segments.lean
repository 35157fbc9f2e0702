import Clustodian.Coordination.Snapshot

namespace Clustodian

section Hex

/-- A hexadecimal digit of either case, as `from_str_radix` reads it. -/
def hexValue (c : Char) : Option ℕ :=
  if '0' ≤ c ∧ c ≤ '9' then some (c.toNat - '0'.toNat)
  else if 'a' ≤ c ∧ c ≤ 'f' then some (c.toNat - 'a'.toNat + 10)
  else if 'A' ≤ c ∧ c ≤ 'F' then some (c.toNat - 'A'.toNat + 10)
  else none

/-- `u8::from_str_radix` on two characters accepts a plus sign before a single digit. -/
def decodePair (first second : Char) : Option UInt8 :=
  match hexValue first, hexValue second with
  | some high, some low => some (UInt8.ofNat (16 * high + low))
  | none, some low => if first = '+' then some (UInt8.ofNat low) else none
  | _, none => none

/-- The bytes of a segment. No character outside ASCII decodes, so pairs of characters stand for
pairs of bytes. -/
def decodeBytes : List Char → Option (List UInt8)
  | [] => some []
  | [_] => none
  | first :: second :: rest => do
    let byte ← decodePair first second
    let bytes ← decodeBytes rest
    return byte :: bytes

def decodeSegment (value : String) : Except CoordinationError String :=
  match decodeBytes value.toList with
  | none => .error .invalidKey
  | some bytes => match String.fromUTF8? ⟨bytes.toArray⟩ with
    | some text => .ok text
    | none => .error .invalidKey

theorem decodePair_hexDigit (byte : UInt8) :
    decodePair (hexDigit (byte.toNat / 16)) (hexDigit (byte.toNat % 16)) = some byte := by
  have digits : ∀ n : Fin 16, hexValue (hexDigit n.val) = some n.val := by decide +kernel
  have high := digits ⟨byte.toNat / 16, by have := byte.toNat_lt; omega⟩
  have low := digits ⟨byte.toNat % 16, by omega⟩
  simp only at high low
  rw [decodePair, high, low]
  simp only [Option.some.injEq]
  have whole : 16 * (byte.toNat / 16) + byte.toNat % 16 = byte.toNat := by omega
  rw [whole, UInt8.ofNat_toNat]

theorem decodeBytes_digits (bytes : List UInt8) :
    decodeBytes (bytes.flatMap fun byte ↦
      [hexDigit (byte.toNat / 16), hexDigit (byte.toNat % 16)]) = some bytes := by
  induction bytes with
  | nil => rfl
  | cons byte bytes ih =>
    rw [List.flatMap_cons, List.cons_append, List.cons_append, List.nil_append, decodeBytes,
      decodePair_hexDigit, ih]
    rfl

theorem toList_byteArray (bytes : ByteArray) : bytes.toList = bytes.data.toList := by
  suffices general : ∀ i r, ByteArray.toList.loop bytes i r =
      r.reverse ++ bytes.data.toList.drop i by
    simpa [ByteArray.toList] using general 0 []
  intro i r
  have size : bytes.data.toList.length = bytes.size := rfl
  fun_induction ByteArray.toList.loop bytes i r with
  | case1 i r inside ih =>
    have head : bytes.get! i = bytes.data.toList[i] := getElem!_pos bytes.data i inside
    rw [ih, List.reverse_cons, List.append_assoc, List.singleton_append, head,
      ← List.drop_eq_getElem_cons]
  | case2 i r outside =>
    rw [List.drop_eq_nil_of_le (by omega), List.append_nil]

/-- Encoding a segment loses nothing. -/
theorem decodeSegment_encodeSegment (value : String) :
    decodeSegment (encodeSegment value) = .ok value := by
  rw [decodeSegment, encodeSegment, String.toList_ofList, decodeBytes_digits, toList_byteArray]
  simp only [Array.toArray_toList]
  have valid : String.fromUTF8? value.toUTF8 = some value := by
    rw [String.fromUTF8?, String.toUTF8_eq_toByteArray]
    exact dif_pos value.isValidUTF8
  change (match String.fromUTF8? value.toUTF8 with
    | some text => Except.ok text
    | none => .error CoordinationError.invalidKey) = _
  rw [valid]

end Hex

end Clustodian
