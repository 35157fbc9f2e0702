import Mathlib

/-! The Java and SHA-1 arithmetic behind CRUSH placement. Words are `BitVec`s of the source's
widths. -/

namespace Clustodian

namespace Crush

abbrev hashMask : BitVec 64 := 0xffffffff

abbrev crushHashSeed : BitVec 64 := 1315423911

/-- `str::encode_utf16`: code points above the basic plane take two units. -/
def encodeUtf16 (value : String) : List (BitVec 16) :=
  value.toList.flatMap fun c ↦
    if c.toNat < 0x10000 then [.ofNat 16 c.toNat]
    else [.ofNat 16 (0xd800 + (c.toNat - 0x10000) / 0x400),
      .ofNat 16 (0xdc00 + (c.toNat - 0x10000) % 0x400)]

def javaStringHash (value : String) : BitVec 32 :=
  (encodeUtf16 value).foldl (fun hash codeUnit ↦ hash * 31 + codeUnit.setWidth 32) 0

/-- Double while the load factor of three quarters is exceeded; the first argument bounds the
doublings. -/
def doubleCapacity (entries : ℕ) : ℕ → ℕ → ℕ
  | 0, capacity => capacity
  | fuel + 1, capacity =>
    if entries > capacity * 3 / 4 then doubleCapacity entries fuel (capacity * 2) else capacity

def javaHashMapCapacity (entries : ℕ) : ℕ := doubleCapacity entries entries 16

def javaHashMapBucket (name : String) (capacity : ℕ) : ℕ :=
  let hash := javaStringHash name
  (hash ^^^ (hash >>> 16)).toNat &&& (capacity - 1)

theorem le_doubleCapacity {entries fuel capacity : ℕ} (positive : 0 < capacity)
    (enough : entries ≤ fuel + capacity * 3 / 4) :
    entries ≤ doubleCapacity entries fuel capacity * 3 / 4 := by
  induction fuel generalizing capacity with
  | zero =>
    rw [Nat.zero_add] at enough
    exact enough
  | succ fuel ih =>
    rw [doubleCapacity]
    split
    · exact ih (by omega) (by omega)
    · omega

/-- The bound on the doublings is never what stops them. -/
theorem le_javaHashMapCapacity (entries : ℕ) : entries ≤ javaHashMapCapacity entries * 3 / 4 :=
  le_doubleCapacity (by omega) (by omega)

/-- The five words of a SHA-1 state. -/
structure Sha1State where
  a : BitVec 32
  b : BitVec 32
  c : BitVec 32
  d : BitVec 32
  e : BitVec 32

/-- The sixteen words of a chunk, extended to eighty. -/
def sha1Words (chunk : List (BitVec 8)) : List (BitVec 32) :=
  (List.range' 16 64).foldl (fun words index ↦
    let word (back : ℕ) : BitVec 32 := words.getD (index - back) 0
    words ++ [(word 3 ^^^ word 8 ^^^ word 14 ^^^ word 16).rotateLeft 1])
    ((List.range 16).map fun index ↦
      let byte (offset : ℕ) : BitVec 8 := chunk.getD (index * 4 + offset) 0
      byte 0 ++ byte 1 ++ byte 2 ++ byte 3)

def sha1Round (state : Sha1State) (step : BitVec 32 × ℕ) : Sha1State :=
  let ⟨a, b, c, d, e⟩ := state
  let (word, index) := step
  let (function, constant) : BitVec 32 × BitVec 32 :=
    if index < 20 then ((b &&& c) ||| (~~~b &&& d), 0x5a827999)
    else if index < 40 then (b ^^^ c ^^^ d, 0x6ed9eba1)
    else if index < 60 then ((b &&& c) ||| (b &&& d) ||| (c &&& d), 0x8f1bbcdc)
    else (b ^^^ c ^^^ d, 0xca62c1d6)
  ⟨a.rotateLeft 5 + function + e + constant + word, a, b.rotateLeft 30, c, d⟩

def sha1Chunk (h : Sha1State) (chunk : List (BitVec 8)) : Sha1State :=
  let rounds := (sha1Words chunk).zipIdx.foldl sha1Round h
  ⟨h.a + rounds.a, h.b + rounds.b, h.c + rounds.c, h.d + rounds.d, h.e + rounds.e⟩

/-- The message padded to whole chunks, with its length in bits at the end. -/
def sha1Message (value : String) : List (BitVec 8) :=
  let bytes := (value.toList.flatMap String.utf8EncodeChar).map UInt8.toBitVec
  let bitLength : BitVec 64 := .ofNat 64 bytes.length * 8
  let message := bytes ++ [0x80]
  let message := message ++ List.replicate ((120 - message.length % 64) % 64) 0
  message ++ (List.range 8).map fun index ↦ (bitLength >>> (56 - 8 * index)).setWidth 8

def sha1FirstU32 (value : String) : BitVec 64 :=
  let message := sha1Message value
  let chunks := (List.range (message.length / 64)).map fun index ↦
    (message.drop (64 * index)).take 64
  let h := chunks.foldl sha1Chunk ⟨0x67452301, 0xefcdab89, 0x98badcfe, 0x10325476, 0xc3d2e1f0⟩
  h.a.setWidth 64

example : sha1FirstU32 "abc" = 0xa9993e36 := by decide +kernel

def hashMix (a b c : BitVec 64) : BitVec 64 × BitVec 64 × BitVec 64 :=
  let a := (a - b) &&& hashMask
  let a := (a - c) &&& hashMask
  let a := (a ^^^ (c >>> 13)) &&& hashMask
  let b := (b - c) &&& hashMask
  let b := (b - a) &&& hashMask
  let b := (b ^^^ ((a <<< 8) &&& hashMask)) &&& hashMask
  let c := (c - a) &&& hashMask
  let c := (c - b) &&& hashMask
  let c := (c ^^^ (b >>> 13)) &&& hashMask
  let a := (a - b) &&& hashMask
  let a := (a - c) &&& hashMask
  let a := (a ^^^ (c >>> 12)) &&& hashMask
  let b := (b - c) &&& hashMask
  let b := (b - a) &&& hashMask
  let b := (b ^^^ ((a <<< 16) &&& hashMask)) &&& hashMask
  let c := (c - a) &&& hashMask
  let c := (c - b) &&& hashMask
  let c := (c ^^^ (b >>> 5)) &&& hashMask
  let a := (a - b) &&& hashMask
  let a := (a - c) &&& hashMask
  let a := (a ^^^ (c >>> 3)) &&& hashMask
  let b := (b - c) &&& hashMask
  let b := (b - a) &&& hashMask
  let b := (b ^^^ ((a <<< 10) &&& hashMask)) &&& hashMask
  let c := (c - a) &&& hashMask
  let c := (c - b) &&& hashMask
  let c := (c ^^^ (b >>> 15)) &&& hashMask
  (a, b, c)

/-- The result is cut to 32 bits and extended by its sign again. -/
def jenkinsHashOne (value : BitVec 64) : BitVec 64 :=
  let a := value &&& hashMask
  let (_, _, hash) := hashMix a 231232 ((crushHashSeed ^^^ a) &&& hashMask)
  let (_, _, hash) := hashMix 1232 a hash
  (hash.setWidth 32).signExtend 64

def jenkinsHashThree (a b c : BitVec 64) : BitVec 64 :=
  let a := a &&& hashMask
  let b := b &&& hashMask
  let c := c &&& hashMask
  let hash := (crushHashSeed ^^^ a ^^^ b ^^^ c) &&& hashMask
  let (a, b, hash) := hashMix a b hash
  let (c, x, hash) := hashMix c 231232 hash
  let (y, _, hash) := hashMix 1232 a hash
  let (_, _, hash) := hashMix b x hash
  let (_, _, hash) := hashMix y c hash
  hash

theorem jenkinsHashThree_masked (a b c : BitVec 64) :
    jenkinsHashThree a b (c &&& hashMask) = jenkinsHashThree a b c := by
  unfold jenkinsHashThree
  rw [BitVec.and_assoc, BitVec.and_self]

/-- The hash looks at the lower half of its arguments only. -/
theorem jenkinsHashThree_add_period (a b : BitVec 64) (n : ℕ) :
    jenkinsHashThree a b (.ofNat 64 (n + 2 ^ 32)) = jenkinsHashThree a b (.ofNat 64 n) := by
  have low : BitVec.ofNat 64 (n + 2 ^ 32) &&& hashMask = BitVec.ofNat 64 n &&& hashMask := by
    apply BitVec.eq_of_toNat_eq
    have mask : hashMask.toNat = 2 ^ 32 - 1 := rfl
    rw [BitVec.toNat_and, BitVec.toNat_and, mask, Nat.and_two_pow_sub_one_eq_mod,
      Nat.and_two_pow_sub_one_eq_mod, BitVec.toNat_ofNat, BitVec.toNat_ofNat]
    omega
  rw [← jenkinsHashThree_masked, low, jenkinsHashThree_masked]

end Crush

end Clustodian
