import Clustodian.Coordination.Segments
import Clustodian.Lib.Utf8

/-! Segment decoding byte pair by byte pair, as the source does it, and what it accepts. -/

namespace Clustodian

section Parse

/-- `char::to_digit` for base sixteen. -/
def hexByte (byte : UInt8) : Option ℕ :=
  let n := byte.toNat
  if 48 ≤ n ∧ n ≤ 57 then some (n - 48)
  else if 97 ≤ n ∧ n ≤ 102 then some (n - 97 + 10)
  else if 65 ≤ n ∧ n ≤ 70 then some (n - 65 + 10)
  else none

/-- The digits after the sign; a value above 255 overflows. -/
def hexDigits : ℕ → List UInt8 → Option UInt8
  | value, [] => some (UInt8.ofNat value)
  | value, byte :: rest =>
    match hexByte byte with
    | none => none
    | some digit =>
      if value * 16 + digit < 256 then hexDigits (value * 16 + digit) rest else none

/-- `u8::from_str_radix(text, 16)`: a plus sign may come first, a lone sign is an error. -/
def u8FromStrRadix16 (text : List UInt8) : Option UInt8 :=
  match text with
  | [] => none
  | [byte] => if byte = 43 ∨ byte = 45 then none else hexDigits 0 [byte]
  | byte :: rest => if byte = 43 then hexDigits 0 rest else hexDigits 0 (byte :: rest)

/-- One round of the loop: the pair has to be UTF-8 before it is parsed. -/
def parsePair (pair : List UInt8) : Option UInt8 :=
  match String.fromUTF8? ⟨pair.toArray⟩ with
  | none => none
  | some text => u8FromStrRadix16 (Utf8.bytes text)

/-- `chunks(2)`; a last chunk may be shorter. -/
def parsePairs : List UInt8 → Option (List UInt8)
  | [] => some []
  | [byte] => do
    let value ← parsePair [byte]
    return [value]
  | first :: second :: rest => do
    let value ← parsePair [first, second]
    let values ← parsePairs rest
    return value :: values

/-- `decode_segment`. -/
def decodeSegmentPairs (value : String) : Except CoordinationError String :=
  if (Utf8.bytes value).length % 2 ≠ 0 then .error .invalidKey
  else match parsePairs (Utf8.bytes value) with
    | none => .error .invalidKey
    | some bytes => match String.fromUTF8? ⟨bytes.toArray⟩ with
      | some text => .ok text
      | none => .error .invalidKey

end Parse

section Pairs

/-- The byte of a hexadecimal digit in lower case. -/
def digitByte (digit : ℕ) : UInt8 := UInt8.ofNat (if digit < 10 then 48 + digit else 87 + digit)

/-- Capital letters of hexadecimal digits in lower case. -/
def lowerByte (byte : UInt8) : UInt8 :=
  if 65 ≤ byte.toNat ∧ byte.toNat ≤ 70 then UInt8.ofNat (byte.toNat + 32) else byte

/-- A plus sign in front of a digit is read as a zero. -/
def leadByte (byte : UInt8) : UInt8 := if byte = 43 then 48 else lowerByte byte

theorem hexByte_eq_some (byte : UInt8) (digit : ℕ) :
    hexByte byte = some digit ↔ digit < 16 ∧ lowerByte byte = digitByte digit := by
  have bytes : ∀ (n : Fin 256) (d : Fin 16), hexByte (UInt8.ofNat n.val) = some d.val ↔
      lowerByte (UInt8.ofNat n.val) = digitByte d.val := by decide +kernel
  have small : ∀ n : Fin 256, ∀ d ∈ hexByte (UInt8.ofNat n.val), d < 16 := by decide +kernel
  have at_ := bytes ⟨byte.toNat, byte.toNat_lt⟩
  have bound := small ⟨byte.toNat, byte.toNat_lt⟩
  simp only [UInt8.ofNat_toNat] at at_ bound
  constructor
  · intro h
    have lt := bound digit h
    exact ⟨lt, (at_ ⟨digit, lt⟩).mp h⟩
  · rintro ⟨lt, eq⟩
    exact (at_ ⟨digit, lt⟩).mpr eq

theorem digitByte_injective {left right : ℕ} (hl : left < 16) (hr : right < 16)
    (eq : digitByte left = digitByte right) : left = right := by
  have digits : ∀ l r : Fin 16, digitByte l.val = digitByte r.val → l = r := by decide
  exact congrArg Fin.val (digits ⟨left, hl⟩ ⟨right, hr⟩ eq)

theorem leadByte_eq_digitByte (byte : UInt8) {digit : ℕ} (small : digit < 16) :
    leadByte byte = digitByte digit ↔
      byte = 43 ∧ digit = 0 ∨ byte ≠ 43 ∧ hexByte byte = some digit := by
  unfold leadByte
  by_cases plus : byte = 43
  · have zero : digitByte 0 = 48 := by decide
    simp only [plus, if_true, true_and, ne_eq, not_true_eq_false, false_and, or_false, ← zero]
    exact ⟨fun eq ↦ (digitByte_injective (by omega) small eq).symm, fun eq ↦ by rw [eq]⟩
  · simp only [plus, if_false, false_and, false_or, ne_eq, not_false_eq_true, true_and,
      hexByte_eq_some, small]

theorem parseTwo (first second : UInt8) (value : UInt8) :
    u8FromStrRadix16 [first, second] = some value ↔
      leadByte first = digitByte (value.toNat / 16) ∧
        lowerByte second = digitByte (value.toNat % 16) := by
  have bound := value.toNat_lt
  have second_iff : lowerByte second = digitByte (value.toNat % 16) ↔
      hexByte second = some (value.toNat % 16) := by
    rw [hexByte_eq_some]
    exact ⟨fun eq ↦ ⟨by omega, eq⟩, And.right⟩
  rw [leadByte_eq_digitByte first (by omega), second_iff]
  unfold u8FromStrRadix16
  by_cases plus : first = 43
  · simp only [plus, if_true, true_and, ne_eq, not_true_eq_false, false_and, or_false, hexDigits]
    cases digit : hexByte second with
    | none => simp
    | some d =>
      have small := ((hexByte_eq_some second d).mp digit).1
      simp only [Nat.zero_mul, Nat.zero_add, show d < 256 by omega, if_true, Option.some.injEq]
      constructor
      · rintro rfl
        rw [UInt8.toNat_ofNat']
        omega
      · rintro ⟨zero, eq⟩
        apply UInt8.toNat_inj.mp
        rw [UInt8.toNat_ofNat']
        omega
  · simp only [plus, if_false, false_and, false_or, ne_eq, not_false_eq_true, true_and, hexDigits]
    cases high : hexByte first with
    | none => simp
    | some h =>
      have small := ((hexByte_eq_some first h).mp high).1
      simp only [Nat.zero_mul, Nat.zero_add, show h < 256 by omega, if_true]
      cases low : hexByte second with
      | none => simp
      | some l =>
        have small' := ((hexByte_eq_some second l).mp low).1
        simp only [show h * 16 + l < 256 by omega, if_true, Option.some.injEq]
        constructor
        · rintro rfl
          rw [UInt8.toNat_ofNat']
          omega
        · rintro ⟨eq, eq'⟩
          apply UInt8.toNat_inj.mp
          rw [UInt8.toNat_ofNat']
          omega

theorem lowerByte_ascii (byte : UInt8) : (lowerByte byte).toNat < 128 ↔ byte.toNat < 128 := by
  have bytes : ∀ n : Fin 256, (lowerByte (UInt8.ofNat n.val)).toNat < 128 ↔ n.val < 128 := by
    decide +kernel
  have at_ := bytes ⟨byte.toNat, byte.toNat_lt⟩
  rwa [UInt8.ofNat_toNat] at at_

theorem leadByte_ascii (byte : UInt8) : (leadByte byte).toNat < 128 ↔ byte.toNat < 128 := by
  unfold leadByte
  split
  · next plus =>
    subst plus
    decide
  · exact lowerByte_ascii byte

theorem digitByte_ascii {digit : ℕ} (small : digit < 16) : (digitByte digit).toNat < 128 := by
  have digits : ∀ d : Fin 16, (digitByte d.val).toNat < 128 := by decide
  exact digits ⟨digit, small⟩

/-- Digits and signs are ASCII, so the UTF-8 check of a pair turns nothing down. -/
theorem parsePair_eq_some (first second : UInt8) (value : UInt8) :
    parsePair [first, second] = some value ↔
      leadByte first = digitByte (value.toNat / 16) ∧
        lowerByte second = digitByte (value.toNat % 16) := by
  have bound := value.toNat_lt
  rw [← parseTwo]
  unfold parsePair
  constructor
  · intro h
    split at h
    · cases h
    · next text decoded => rwa [Utf8.fromUTF8?_eq_some.mp decoded]
  · intro h
    obtain ⟨lead, low⟩ := (parseTwo _ _ _).mp h
    have ascii : ∀ byte ∈ [first, second], byte.toNat < 128 := by
      intro byte mem
      rcases List.mem_pair.mp mem with rfl | rfl
      · exact (leadByte_ascii _).mp (lead ▸ digitByte_ascii (by omega))
      · exact (lowerByte_ascii _).mp (low ▸ digitByte_ascii (by omega))
    obtain ⟨text, own⟩ := Utf8.exists_of_ascii ascii
    rw [Utf8.fromUTF8?_eq_some.mpr own]
    simp only
    rwa [← own]

/-- The bytes of a segment with signs and capital letters replaced. -/
def normalBytes : List UInt8 → List UInt8
  | [] => []
  | [byte] => [byte]
  | first :: second :: rest => leadByte first :: lowerByte second :: normalBytes rest

/-- The two digits of every byte. -/
def digitBytes (bytes : List UInt8) : List UInt8 :=
  bytes.flatMap fun byte ↦ [digitByte (byte.toNat / 16), digitByte (byte.toNat % 16)]

theorem length_normalBytes (bytes : List UInt8) : (normalBytes bytes).length = bytes.length := by
  fun_induction normalBytes bytes with
  | case1 => rfl
  | case2 byte => rfl
  | case3 first second rest ih => simp only [List.length_cons, ih]

theorem normalBytes_ascii (bytes : List UInt8) :
    (∀ byte ∈ normalBytes bytes, byte.toNat < 128) ↔ ∀ byte ∈ bytes, byte.toNat < 128 := by
  fun_induction normalBytes bytes with
  | case1 => rfl
  | case2 byte => rfl
  | case3 first second rest ih =>
    simp only [List.forall_mem_cons, leadByte_ascii, lowerByte_ascii, ih]

theorem digitBytes_ascii (bytes : List UInt8) : ∀ byte ∈ digitBytes bytes, byte.toNat < 128 := by
  intro byte mem
  obtain ⟨value, _, mem⟩ := List.mem_flatMap.mp mem
  have bound := value.toNat_lt
  rcases List.mem_pair.mp mem with rfl | rfl
  · exact digitByte_ascii (by omega)
  · exact digitByte_ascii (by omega)

theorem length_digitBytes (bytes : List UInt8) : (digitBytes bytes).length = 2 * bytes.length := by
  induction bytes with
  | nil => rfl
  | cons byte bytes ih =>
    rw [digitBytes, List.flatMap_cons, List.length_append, List.length_cons]
    have rest : (bytes.flatMap fun byte ↦
      [digitByte (byte.toNat / 16), digitByte (byte.toNat % 16)]).length = _ := ih
    rw [rest]
    simp only [List.length_cons, List.length_nil]
    omega

theorem parsePairs_eq_some {bytes : List UInt8} (even : bytes.length % 2 = 0)
    (values : List UInt8) :
    parsePairs bytes = some values ↔ normalBytes bytes = digitBytes values := by
  fun_induction parsePairs bytes generalizing values with
  | case1 =>
    cases values with
    | nil => simp [normalBytes, digitBytes]
    | cons value values => simp [normalBytes, digitBytes]
  | case2 byte => simp at even
  | case3 first second rest ih =>
    have even' : rest.length % 2 = 0 := by
      simp only [List.length_cons] at even
      omega
    cases values with
    | nil => simp [normalBytes, digitBytes, Option.bind_eq_some_iff]
    | cons value values =>
      have step : digitBytes (value :: values) = digitByte (value.toNat / 16) ::
        digitByte (value.toNat % 16) :: digitBytes values := rfl
      rw [normalBytes, step, List.cons.injEq, List.cons.injEq, ← ih even' values, ← and_assoc,
        ← parsePair_eq_some]
      simp [Option.bind_eq_some_iff]

end Pairs

section Characters

def lowerChar (c : Char) : Char := if 'A' ≤ c ∧ c ≤ 'F' then Char.ofNat (c.toNat + 32) else c

def leadChar (c : Char) : Char := if c = '+' then '0' else lowerChar c

/-- The characters of a segment, with a plus sign at the head of a pair replaced by a zero and
capital letters by small ones. -/
def normalChars : List Char → List Char
  | [] => []
  | [c] => [c]
  | first :: second :: rest => leadChar first :: lowerChar second :: normalChars rest

def normalSegment (value : String) : String := String.ofList (normalChars value.toList)

def charByte (c : Char) : UInt8 := UInt8.ofNat c.toNat

theorem lowerChar_ascii (c : Char) : (lowerChar c).toNat < 128 ↔ c.toNat < 128 := by
  unfold lowerChar
  split
  · next capital =>
    have upper : c.toNat ≤ 70 := capital.2
    have valid : (Char.ofNat (c.toNat + 32)).toNat = c.toNat + 32 := by
      rw [Char.toNat_ofNat, if_pos (Or.inl (by omega))]
    rw [valid]
    omega
  · rfl

theorem leadChar_ascii (c : Char) : (leadChar c).toNat < 128 ↔ c.toNat < 128 := by
  unfold leadChar
  split
  · next plus =>
    subst plus
    decide
  · exact lowerChar_ascii c

theorem normalChars_ascii (chars : List Char) :
    (∀ c ∈ normalChars chars, c.toNat < 128) ↔ ∀ c ∈ chars, c.toNat < 128 := by
  fun_induction normalChars chars with
  | case1 => rfl
  | case2 c => rfl
  | case3 first second rest ih =>
    simp only [List.forall_mem_cons, leadChar_ascii, lowerChar_ascii, ih]

theorem bytes_normalChars {chars : List Char} (ascii : ∀ c ∈ chars, c.toNat < 128) :
    normalBytes (chars.map charByte) = (normalChars chars).map charByte := by
  have lowers : ∀ n : Fin 128, lowerByte (charByte (Char.ofNat n.val)) =
      charByte (lowerChar (Char.ofNat n.val)) := by decide
  have leads : ∀ n : Fin 128, leadByte (charByte (Char.ofNat n.val)) =
      charByte (leadChar (Char.ofNat n.val)) := by decide
  fun_induction normalChars chars with
  | case1 => rfl
  | case2 c => rfl
  | case3 first second rest ih =>
    have h₁ := leads ⟨first.toNat, ascii first (by simp)⟩
    have h₂ := lowers ⟨second.toNat, ascii second (by simp)⟩
    simp only [Char.ofNat_toNat] at h₁ h₂
    rw [List.map_cons, List.map_cons, normalBytes, h₁, h₂,
      ih fun c mem ↦ ascii c (List.mem_cons_of_mem _ (List.mem_cons_of_mem _ mem))]
    rfl

theorem bytes_encodeSegment (value : String) :
    (∀ c ∈ (encodeSegment value).toList, c.toNat < 128) ∧
      Utf8.bytes (encodeSegment value) = digitBytes (Utf8.bytes value) := by
  have digits : ∀ n : Fin 16, (hexDigit n.val).toNat < 128 ∧
      charByte (hexDigit n.val) = digitByte n.val := by decide
  have text : (encodeSegment value).toList = (Utf8.bytes value).flatMap fun byte ↦
      [hexDigit (byte.toNat / 16), hexDigit (byte.toNat % 16)] := by
    rw [encodeSegment, String.toList_ofList, toList_byteArray]
    rfl
  have ascii : ∀ c ∈ (encodeSegment value).toList, c.toNat < 128 := by
    intro c mem
    rw [text] at mem
    obtain ⟨byte, _, mem⟩ := List.mem_flatMap.mp mem
    have bound := byte.toNat_lt
    rcases List.mem_pair.mp mem with rfl | rfl
    · exact (digits ⟨byte.toNat / 16, by omega⟩).1
    · exact (digits ⟨byte.toNat % 16, by omega⟩).1
  refine ⟨ascii, ?_⟩
  rw [Utf8.bytes_of_ascii ascii, text, List.map_flatMap]
  refine List.flatMap_congr fun byte _ ↦ ?_
  have bound := byte.toNat_lt
  have high := (digits ⟨byte.toNat / 16, by omega⟩).2
  have low := (digits ⟨byte.toNat % 16, by omega⟩).2
  simp only [charByte] at high low
  rw [List.map_cons, List.map_singleton, high, low]

end Characters

/-- Decoding accepts the encodings, also when they are spelled with capital letters or with a plus
sign in place of a leading zero. -/
theorem decodeSegmentPairs_eq_ok (x value : String) :
    decodeSegmentPairs x = .ok value ↔ normalSegment x = encodeSegment value := by
  obtain ⟨asciiEncoded, encoded⟩ := bytes_encodeSegment value
  have accepted : decodeSegmentPairs x = .ok value ↔
      normalBytes (Utf8.bytes x) = digitBytes (Utf8.bytes value) := by
    unfold decodeSegmentPairs
    by_cases even : (Utf8.bytes x).length % 2 = 0
    · rw [if_neg (not_not_intro even), ← parsePairs_eq_some even]
      cases parsePairs (Utf8.bytes x) with
      | none => simp
      | some bytes =>
        simp only [Option.some.injEq, ← Utf8.fromUTF8?_eq_some]
        cases String.fromUTF8? ⟨bytes.toArray⟩ <;> simp
    · rw [if_pos even]
      refine ⟨fun h ↦ (nomatch h), fun eq ↦ absurd ?_ even⟩
      rw [← length_normalBytes, eq, length_digitBytes]
      omega
  have asciiNormal : (normalSegment x).toList = normalChars x.toList := String.toList_ofList
  have bytes (ascii : ∀ c ∈ x.toList, c.toNat < 128) :
      Utf8.bytes (normalSegment x) = normalBytes (Utf8.bytes x) := by
    rw [Utf8.bytes_of_ascii ascii, Utf8.bytes_of_ascii]
    · rw [asciiNormal]
      exact (bytes_normalChars ascii).symm
    · rw [asciiNormal]
      exact (normalChars_ascii _).mpr ascii
  rw [accepted]
  constructor
  · intro eq
    have ascii : ∀ c ∈ x.toList, c.toNat < 128 := by
      refine Utf8.ascii_of_bytes ((normalBytes_ascii _).mp ?_)
      rw [eq]
      exact digitBytes_ascii _
    exact Utf8.bytes_injective (by rw [bytes ascii, eq, encoded])
  · intro eq
    have ascii : ∀ c ∈ x.toList, c.toNat < 128 := by
      rw [← normalChars_ascii, ← asciiNormal, eq]
      exact asciiEncoded
    rw [← bytes ascii, eq, encoded]

/-- Encodings are in normal form. -/
theorem normalSegment_encodeSegment (value : String) :
    normalSegment (encodeSegment value) = encodeSegment value := by
  have digits : ∀ n : Fin 16, leadChar (hexDigit n.val) = hexDigit n.val ∧
      lowerChar (hexDigit n.val) = hexDigit n.val := by decide
  have chars (bytes : List UInt8) :
      normalChars (bytes.flatMap fun byte ↦
        [hexDigit (byte.toNat / 16), hexDigit (byte.toNat % 16)]) =
      bytes.flatMap fun byte ↦ [hexDigit (byte.toNat / 16), hexDigit (byte.toNat % 16)] := by
    induction bytes with
    | nil => rfl
    | cons byte bytes ih =>
      have bound := byte.toNat_lt
      rw [List.flatMap_cons, List.cons_append, List.cons_append, List.nil_append, normalChars, ih,
        (digits ⟨byte.toNat / 16, by omega⟩).1, (digits ⟨byte.toNat % 16, by omega⟩).2]
  rw [normalSegment, encodeSegment, String.toList_ofList, chars]

/-- A segment decodes to the values that encode to it, and to no others, exactly when it is in
normal form or its normal form encodes nothing. -/
theorem decodeSegment_exact_iff (x : String) :
    (∀ value, decodeSegmentPairs x = .ok value ↔ x = encodeSegment value) ↔
      normalSegment x = x ∨ ∀ value, normalSegment x ≠ encodeSegment value := by
  simp only [decodeSegmentPairs_eq_ok]
  constructor
  · intro exact_
    by_cases encodes : ∃ value, normalSegment x = encodeSegment value
    · obtain ⟨value, eq⟩ := encodes
      rw [eq, ← (exact_ value).mp eq]
      exact .inl rfl
    · exact .inr (not_exists.mp encodes)
  · rintro (normal | nothing) value
    · rw [normal]
    · refine iff_of_false (nothing value) fun eq ↦ nothing value ?_
      rw [eq, normalSegment_encodeSegment]

/-- Two keys that decode to one name. -/
theorem decodeSegment_aliases :
    decodeSegmentPairs "4A" = .ok "J" ∧ decodeSegmentPairs "4a" = .ok "J" ∧
      decodeSegmentPairs "+a" = .ok "\n" ∧
      ¬∀ x value, decodeSegmentPairs x = .ok value ↔ x = encodeSegment value := by
  have capital : decodeSegmentPairs "4A" = .ok "J" :=
    (decodeSegmentPairs_eq_ok _ _).mpr (by decide +kernel)
  refine ⟨capital, (decodeSegmentPairs_eq_ok _ _).mpr (by decide +kernel),
    (decodeSegmentPairs_eq_ok _ _).mpr (by decide +kernel), fun claim ↦ ?_⟩
  have spelled : ("4A" : String) ≠ encodeSegment "J" := by decide +kernel
  exact spelled ((claim "4A" "J").mp capital)

end Clustodian
