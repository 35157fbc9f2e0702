import Mathlib

/-! SHA-1 as the Secure Hash Standard describes it: bit strings that are padded to blocks of 512
bits, a schedule of eighty words for every block, and five chained words. -/

namespace Sha1

abbrev Word : Type := BitVec 32

section Bits

/-- Bits are listed from the most significant one. -/
def bits {w : ℕ} (x : BitVec w) : List Bool := (List.range w).map x.getMsbD

def value (bits : List Bool) : ℕ := bits.foldl (fun n bit ↦ 2 * n + bit.toNat) 0

def word (bits : List Bool) : Word := .ofNat 32 (value bits)

variable {w : ℕ} (x : BitVec w)

@[simp] theorem length_bits : (bits x).length = w := by simp [bits]

theorem foldl_bits (start : ℕ) :
    (bits x).foldl (fun n bit ↦ 2 * n + bit.toNat) start = start * 2 ^ w + x.toNat := by
  suffices general : ∀ k ≤ w, ((List.range k).map x.getMsbD).foldl
      (fun n bit ↦ 2 * n + bit.toNat) start = start * 2 ^ k + x.toNat / 2 ^ (w - k) by
    have all := general w le_rfl
    rwa [Nat.sub_self, pow_zero, Nat.div_one] at all
  intro k le
  induction k with
  | zero => simp [Nat.div_eq_of_lt x.isLt]
  | succ k ih =>
    rw [List.range_succ, List.map_append, List.foldl_append, ih (by omega)]
    have bit : (x.getMsbD k).toNat = x.toNat / 2 ^ (w - (k + 1)) % 2 := by
      rw [BitVec.getMsbD, decide_eq_true (show k < w by omega), Bool.true_and, BitVec.getLsbD,
        Nat.toNat_testBit, show w - 1 - k = w - (k + 1) by omega]
    have split : w - k = w - (k + 1) + 1 := by omega
    rw [List.map_singleton, List.foldl_cons, List.foldl_nil, bit, split, pow_succ 2 (w - (k + 1)),
      ← Nat.div_div_eq_div_mul, pow_succ]
    have halves := Nat.div_add_mod (x.toNat / 2 ^ (w - (k + 1))) 2
    calc 2 * (start * 2 ^ k + x.toNat / 2 ^ (w - (k + 1)) / 2) + x.toNat / 2 ^ (w - (k + 1)) % 2
        = start * (2 ^ k * 2) +
            (2 * (x.toNat / 2 ^ (w - (k + 1)) / 2) + x.toNat / 2 ^ (w - (k + 1)) % 2) := by ring
      _ = start * (2 ^ k * 2) + x.toNat / 2 ^ (w - (k + 1)) := by rw [halves]

theorem value_append (left : List Bool) : value (left ++ bits x) = value left * 2 ^ w + x.toNat := by
  rw [value, List.foldl_append, foldl_bits]
  rfl

end Bits

section Hash

/-- The number of zero bits that follow the closing bit of a message of the given length. -/
def zeros (length : ℕ) : ℕ := (447 + 512 - length % 512) % 512

/-- The least number that leaves room for the length at the end of a block. -/
theorem zeros_least (length : ℕ) : (length + 1 + zeros length) % 512 = 448 ∧
    ∀ k, (length + 1 + k) % 512 = 448 → zeros length ≤ k := by
  unfold zeros
  exact ⟨by omega, fun k h ↦ by omega⟩

def pad (message : List Bool) : List Bool :=
  message ++ [true] ++ List.replicate (zeros message.length) false ++
    bits (.ofNat 64 message.length : BitVec 64)

theorem length_pad (message : List Bool) : (pad message).length % 512 = 0 := by
  have least := (zeros_least message.length).1
  simp only [pad, List.length_append, List.length_replicate, List.length_singleton, length_bits]
  omega

/-- The words of block `i`. -/
def blockWord (padded : List Bool) (i t : ℕ) : Word :=
  word ((padded.drop (512 * i + 32 * t)).take 32)

def schedule (block : ℕ → Word) (t : ℕ) : Word :=
  if t < 16 then block t
  else (schedule block (t - 3) ^^^ schedule block (t - 8) ^^^ schedule block (t - 14) ^^^
    schedule block (t - 16)).rotateLeft 1
termination_by t

def ch (x y z : Word) : Word := (x &&& y) ^^^ (~~~x &&& z)

def parity (x y z : Word) : Word := x ^^^ y ^^^ z

def maj (x y z : Word) : Word := (x &&& y) ^^^ (x &&& z) ^^^ (y &&& z)

def function (t : ℕ) : Word → Word → Word → Word :=
  if t < 20 then ch else if t < 40 then parity else if t < 60 then maj else parity

def constant (t : ℕ) : Word :=
  if t < 20 then 0x5a827999 else if t < 40 then 0x6ed9eba1 else if t < 60 then 0x8f1bbcdc
  else 0xca62c1d6

/-- The five words of a hash value, and of the working variables. -/
structure State where
  a : Word
  b : Word
  c : Word
  d : Word
  e : Word

def round (scheduled : ℕ → Word) (s : State) (t : ℕ) : State where
  a := s.a.rotateLeft 5 + function t s.b s.c s.d + s.e + constant t + scheduled t
  b := s.a
  c := s.b.rotateLeft 30
  d := s.c
  e := s.d

def compress (h : State) (block : ℕ → Word) : State :=
  let s := (List.range 80).foldl (round (schedule block)) h
  ⟨h.a + s.a, h.b + s.b, h.c + s.c, h.d + s.d, h.e + s.e⟩

def initial : State := ⟨0x67452301, 0xefcdab89, 0x98badcfe, 0x10325476, 0xc3d2e1f0⟩

/-- The digest is the concatenation of the five words. -/
def digest (message : List Bool) : State :=
  (List.range ((pad message).length / 512)).foldl
    (fun h i ↦ compress h (blockWord (pad message) i)) initial

end Hash

end Sha1
