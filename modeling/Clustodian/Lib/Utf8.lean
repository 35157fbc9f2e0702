import Mathlib

/-! UTF-8 bytes of strings: characters below 128 are single bytes, and bytes that decode are the
bytes of what they decode to. -/

namespace Utf8

def bytes (value : String) : List UInt8 := value.toByteArray.data.toList

theorem bytes_eq_flatMap (value : String) :
    bytes value = value.toList.flatMap String.utf8EncodeChar := by
  rw [bytes, ← String.utf8Encode_toList, List.utf8Encode]
  simp

theorem bytes_injective : Function.Injective bytes := by
  intro left right eq
  refine String.toByteArray_inj.mp (ByteArray.ext (Array.toList_inj.mp eq))

/-- Decoding gives the string with these bytes, if there is one. -/
theorem fromUTF8?_eq_some {encoded : List UInt8} {value : String} :
    String.fromUTF8? ⟨encoded.toArray⟩ = some value ↔ encoded = bytes value := by
  unfold String.fromUTF8?
  constructor
  · intro h
    split at h
    · cases h
      rfl
    · cases h
  · rintro rfl
    have same : (⟨(bytes value).toArray⟩ : ByteArray) = value.toByteArray := by
      rw [bytes, Array.toArray_toList]
    rw [same]
    exact dif_pos value.isValidUTF8

theorem utf8EncodeChar_of_lt {c : Char} (ascii : c.toNat < 128) :
    String.utf8EncodeChar c = [UInt8.ofNat c.toNat] := by
  have small : c.val.toNat ≤ 0x7f := by
    have lt : c.val.toNat < 128 := ascii
    omega
  exact if_pos small

theorem exists_byte_of_le {c : Char} (wide : 128 ≤ c.toNat) :
    ∃ byte ∈ String.utf8EncodeChar c, 128 ≤ byte.toNat := by
  have large : ¬ c.val.toNat ≤ 0x7f := by
    have le : 128 ≤ c.val.toNat := wide
    omega
  -- the leading byte of every longer encoding has its top bit set
  unfold String.utf8EncodeChar
  simp only [large, if_false]
  split
  · refine ⟨_, List.mem_cons_self, ?_⟩
    rw [UInt8.toNat_ofNat']
    omega
  · split
    · refine ⟨_, List.mem_cons_self, ?_⟩
      rw [UInt8.toNat_ofNat']
      omega
    · refine ⟨_, List.mem_cons_self, ?_⟩
      rw [UInt8.toNat_ofNat']
      omega

/-- A string of characters below 128 has one byte for each. -/
theorem bytes_of_ascii {value : String} (ascii : ∀ c ∈ value.toList, c.toNat < 128) :
    bytes value = value.toList.map fun c ↦ UInt8.ofNat c.toNat := by
  rw [bytes_eq_flatMap]
  generalize value.toList = chars at ascii
  induction chars with
  | nil => rfl
  | cons c chars ih =>
    rw [List.flatMap_cons, utf8EncodeChar_of_lt (ascii c List.mem_cons_self), List.map_cons,
      ih fun other mem ↦ ascii other (List.mem_cons_of_mem _ mem)]
    rfl

/-- Bytes below 128 decode. -/
theorem exists_of_ascii {encoded : List UInt8} (small : ∀ byte ∈ encoded, byte.toNat < 128) :
    ∃ value, encoded = bytes value := by
  refine ⟨String.ofList (encoded.map fun byte ↦ Char.ofNat byte.toNat), ?_⟩
  have char {byte : UInt8} (mem : byte ∈ encoded) : (Char.ofNat byte.toNat).toNat = byte.toNat := by
    rw [Char.toNat_ofNat, if_pos (Or.inl (by have := small byte mem; omega))]
  rw [bytes_of_ascii, String.toList_ofList, List.map_map]
  · refine (List.map_id' encoded).symm.trans (List.map_congr_left fun byte mem ↦ ?_)
    rw [Function.comp_apply, char mem, UInt8.ofNat_toNat]
  · intro c mem
    rw [String.toList_ofList] at mem
    obtain ⟨byte, listed, rfl⟩ := List.mem_map.mp mem
    rw [char listed]
    exact small byte listed

theorem ascii_of_bytes {value : String} (small : ∀ byte ∈ bytes value, byte.toNat < 128) :
    ∀ c ∈ value.toList, c.toNat < 128 := by
  intro c mem
  by_contra wide
  obtain ⟨byte, inChar, large⟩ := exists_byte_of_le (Nat.le_of_not_lt wide)
  have lt := small byte (by
    rw [bytes_eq_flatMap]
    exact List.mem_flatMap.mpr ⟨c, mem, inChar⟩)
  omega

end Utf8
