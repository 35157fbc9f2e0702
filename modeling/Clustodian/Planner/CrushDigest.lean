import Clustodian.Lib.Sha1
import Clustodian.Planner.CrushHash

/-! The digest and mixing code of CRUSH against the definitions that it follows. -/

namespace Clustodian

namespace Crush

section Digest

/-- The bits of a message of bytes. -/
def bytesBits (bytes : List (BitVec 8)) : List Bool := bytes.flatMap Sha1.bits

theorem length_bytesBits (bytes : List (BitVec 8)) : (bytesBits bytes).length = 8 * bytes.length := by
  induction bytes with
  | nil => rfl
  | cons byte bytes ih =>
    rw [bytesBits, List.flatMap_cons, List.length_append, Sha1.length_bits, List.length_cons]
    have rest : (bytes.flatMap Sha1.bits).length = 8 * bytes.length := ih
    omega

theorem bytesBits_append (left right : List (BitVec 8)) :
    bytesBits (left ++ right) = bytesBits left ++ bytesBits right := List.flatMap_append

theorem bytesBits_drop (bytes : List (BitVec 8)) (n : ℕ) :
    bytesBits (bytes.drop n) = (bytesBits bytes).drop (8 * n) := by
  induction n generalizing bytes with
  | zero => rfl
  | succ n ih =>
    cases bytes with
    | nil => rfl
    | cons byte bytes =>
      have tail : (bytesBits (byte :: bytes)).drop 8 = bytesBits bytes := by
        rw [bytesBits, List.flatMap_cons]
        exact List.drop_left' (Sha1.length_bits byte)
      rw [List.drop_succ_cons, ih, ← tail, List.drop_drop]
      exact congrArg (List.drop · _) (by omega)

theorem bytesBits_take (bytes : List (BitVec 8)) (n : ℕ) :
    bytesBits (bytes.take n) = (bytesBits bytes).take (8 * n) := by
  by_cases le : n ≤ bytes.length
  · have split := congrArg bytesBits (List.take_append_drop n bytes)
    rw [bytesBits_append] at split
    rw [← split]
    refine (List.take_left' ?_).symm
    rw [length_bytesBits, List.length_take, Nat.min_eq_left le]
  · rw [List.take_of_length_le (by omega), List.take_of_length_le]
    rw [length_bytesBits]
    omega

/-- Four bytes, the first one most significant, are the word of their bits. -/
theorem word_bytesBits (b₀ b₁ b₂ b₃ : BitVec 8) :
    Sha1.word (bytesBits [b₀, b₁, b₂, b₃]) = b₀ ++ b₁ ++ b₂ ++ b₃ := by
  have bits : bytesBits [b₀, b₁, b₂, b₃] =
      [] ++ Sha1.bits b₀ ++ Sha1.bits b₁ ++ Sha1.bits b₂ ++ Sha1.bits b₃ := by
    simp [bytesBits]
  apply BitVec.eq_of_toNat_eq
  rw [Sha1.word, bits]
  simp only [Sha1.value_append]
  have join {v w : ℕ} (x : BitVec v) (y : BitVec w) : (x ++ y).toNat = x.toNat * 2 ^ w + y.toNat := by
    rw [BitVec.toNat_append, ← Nat.shiftLeft_add_eq_or_of_lt y.isLt, Nat.shiftLeft_eq]
  rw [join, join, join, BitVec.toNat_ofNat]
  have empty : Sha1.value [] = 0 := rfl
  rw [empty, Nat.zero_mul, Nat.zero_add, Nat.mod_eq_of_lt]
  have h₀ := b₀.isLt
  have h₁ := b₁.isLt
  have h₂ := b₂.isLt
  have h₃ := b₃.isLt
  omega

theorem bytesBits_zeros (n : ℕ) :
    bytesBits (List.replicate n 0) = List.replicate (8 * n) false := by
  induction n with
  | zero => rfl
  | succ n ih =>
    have byte : Sha1.bits (0 : BitVec 8) = List.replicate 8 false := by decide
    rw [List.replicate_succ, bytesBits, List.flatMap_cons, byte]
    have rest : (List.replicate n (0 : BitVec 8)).flatMap Sha1.bits = _ := ih
    rw [rest, List.replicate_append_replicate]
    exact congrArg (List.replicate · false) (by omega)

/-- The bytes of a length, from the most significant one. -/
theorem bytesBits_toBeBytes (length : BitVec 64) :
    bytesBits ((List.range 8).map fun index ↦ (length >>> (56 - 8 * index)).setWidth 8) =
      Sha1.bits length := by
  have byte (index : ℕ) (lt : index < 8) :
      Sha1.bits ((length >>> (56 - 8 * index)).setWidth 8 : BitVec 8) =
        (List.range 8).map fun bit ↦ length.getMsbD (8 * index + bit) := by
    refine List.map_congr_left fun bit mem ↦ ?_
    have small := List.mem_range.mp mem
    rw [BitVec.getMsbD, BitVec.getMsbD, BitVec.getLsbD_setWidth, BitVec.getLsbD_ushiftRight,
      decide_eq_true (show bit < 8 from small), decide_eq_true (show 8 * index + bit < 64 by omega),
      decide_eq_true (show 8 - 1 - bit < 8 by omega), Bool.true_and, Bool.true_and, Bool.true_and]
    exact congrArg length.getLsbD (by omega)
  have bytes : bytesBits ((List.range 8).map fun index ↦
      (length >>> (56 - 8 * index)).setWidth 8) = (List.range 8).flatMap fun index ↦
        (List.range 8).map fun bit ↦ length.getMsbD (8 * index + bit) := by
    rw [bytesBits, List.flatMap_map]
    exact List.flatMap_congr fun index mem ↦ byte index (List.mem_range.mp mem)
  rw [bytes]
  rfl

def utf8Bytes (value : String) : List (BitVec 8) :=
  (value.toList.flatMap String.utf8EncodeChar).map UInt8.toBitVec

/-- The code pads whole bytes as the standard pads bits. -/
theorem bytesBits_sha1Message (value : String) :
    bytesBits (sha1Message value) = Sha1.pad (bytesBits (utf8Bytes value)) := by
  have start : sha1Message value = utf8Bytes value ++ [(0x80 : BitVec 8)] ++
      List.replicate ((120 - (utf8Bytes value ++ [(0x80 : BitVec 8)]).length % 64) % 64)
        (0 : BitVec 8) ++
      (List.range 8).map fun index ↦
        ((BitVec.ofNat 64 (utf8Bytes value).length * 8) >>> (56 - 8 * index)).setWidth 8 := rfl
  have closing : bytesBits [0x80] = true :: List.replicate 7 false := by decide
  have length : (BitVec.ofNat 64 (utf8Bytes value).length * 8 : BitVec 64) =
      BitVec.ofNat 64 (bytesBits (utf8Bytes value)).length := by
    rw [length_bytesBits, Nat.mul_comm, BitVec.ofNat_mul]
    rfl
  have zeros : 7 + 8 * ((120 - (utf8Bytes value ++ [(0x80 : BitVec 8)]).length % 64) % 64) =
      Sha1.zeros (bytesBits (utf8Bytes value)).length := by
    rw [Sha1.zeros, length_bytesBits, List.length_append, List.length_singleton]
    omega
  rw [start, bytesBits_append, bytesBits_append, bytesBits_append, bytesBits_toBeBytes, length,
    bytesBits_zeros, closing, Sha1.pad, ← zeros, List.replicate_add]
  simp only [List.append_assoc, List.cons_append, List.nil_append]

/-- The chunks of the code are the blocks of the standard. -/
theorem chunk_word (message : List (BitVec 8)) (i t : ℕ) (inside : 64 * (i + 1) ≤ message.length)
    (small : t < 16) :
    (((message.drop (64 * i)).take 64).getD (t * 4 + 0) 0 ++
      ((message.drop (64 * i)).take 64).getD (t * 4 + 1) 0 ++
      ((message.drop (64 * i)).take 64).getD (t * 4 + 2) 0 ++
      ((message.drop (64 * i)).take 64).getD (t * 4 + 3) 0 : BitVec 32) =
      Sha1.blockWord (bytesBits message) i t := by
  have four : ((message.drop (64 * i + 4 * t)).take 4) =
      (List.range 4).map fun offset ↦
        ((message.drop (64 * i)).take 64).getD (t * 4 + offset) 0 := by
    refine List.ext_getElem ?_ fun n lt _ ↦ ?_
    · rw [List.length_take, List.length_drop, List.length_map, List.length_range]
      omega
    · rw [List.length_take, List.length_drop] at lt
      rw [List.getElem_map, List.getElem_range, List.getElem_take, List.getElem_drop,
        List.getD_eq_getElem _ _ (by rw [List.length_take, List.length_drop]; omega),
        List.getElem_take, List.getElem_drop]
      exact getElem_congr_idx (by omega)
  have bits : ((bytesBits message).drop (512 * i + 32 * t)).take 32 =
      bytesBits ((message.drop (64 * i + 4 * t)).take 4) := by
    rw [bytesBits_take, bytesBits_drop]
    exact congrArg (fun n ↦ ((bytesBits message).drop n).take 32) (by omega)
  rw [Sha1.blockWord, bits, four]
  exact (word_bytesBits _ _ _ _).symm

section Rounds

theorem schedule_of_lt (block : ℕ → Sha1.Word) {t : ℕ} (lt : t < 16) :
    Sha1.schedule block t = block t := by
  rw [Sha1.schedule, if_pos lt]

theorem schedule_of_le (block : ℕ → Sha1.Word) {t : ℕ} (le : 16 ≤ t) :
    Sha1.schedule block t = (Sha1.schedule block (t - 3) ^^^ Sha1.schedule block (t - 8) ^^^
      Sha1.schedule block (t - 14) ^^^ Sha1.schedule block (t - 16)).rotateLeft 1 := by
  rw [Sha1.schedule, if_neg (by omega)]

/-- The words that the code appends one by one are the schedule. -/
theorem sha1Words_eq {chunk : List (BitVec 8)} {block : ℕ → Sha1.Word}
    (first : ∀ t < 16, (chunk.getD (t * 4 + 0) 0 ++ chunk.getD (t * 4 + 1) 0 ++
      chunk.getD (t * 4 + 2) 0 ++ chunk.getD (t * 4 + 3) 0 : BitVec 32) = block t) :
    sha1Words chunk = (List.range 80).map (Sha1.schedule block) := by
  have start : ((List.range 16).map fun index ↦
      let byte (offset : ℕ) : BitVec 8 := chunk.getD (index * 4 + offset) 0
      byte 0 ++ byte 1 ++ byte 2 ++ byte 3) = (List.range 16).map (Sha1.schedule block) := by
    refine List.map_congr_left fun t mem ↦ ?_
    rw [schedule_of_lt block (List.mem_range.mp mem)]
    exact first t (List.mem_range.mp mem)
  have grow (n : ℕ) : (List.range' 16 n).foldl (fun words index ↦
      let word (back : ℕ) : BitVec 32 := words.getD (index - back) 0
      words ++ [(word 3 ^^^ word 8 ^^^ word 14 ^^^ word 16).rotateLeft 1])
        ((List.range 16).map (Sha1.schedule block)) =
      (List.range (16 + n)).map (Sha1.schedule block) := by
    induction n with
    | zero => rfl
    | succ n ih =>
      rw [List.range'_1_concat, List.foldl_append, ih, ← Nat.add_assoc, List.range_succ (n := 16 + n),
        List.map_append]
      have word (back : ℕ) (le : 1 ≤ back) :
          ((List.range (16 + n)).map (Sha1.schedule block)).getD (16 + n - back) 0 =
            Sha1.schedule block (16 + n - back) := by
        rw [List.getD_eq_getElem _ _ (by rw [List.length_map, List.length_range]; omega),
          List.getElem_map, List.getElem_range]
      refine congrArg (_ ++ [·]) ?_
      beta_reduce
      rw [schedule_of_le block (by omega), word 3 (by omega), word 8 (by omega),
        word 14 (by omega), word 16 (by omega)]
  rw [sha1Words, start]
  exact grow 64

/-- The choice and majority functions, with `|` in place of exclusive or. -/
theorem ch_eq (x y z : Sha1.Word) : (x &&& y) ||| (~~~x &&& z) = Sha1.ch x y z := by
  unfold Sha1.ch
  ext i lt
  simp only [BitVec.getElem_or, BitVec.getElem_and, BitVec.getElem_not, BitVec.getElem_xor]
  cases x[i] <;> simp

theorem maj_eq (x y z : Sha1.Word) :
    (x &&& y) ||| (x &&& z) ||| (y &&& z) = Sha1.maj x y z := by
  unfold Sha1.maj
  ext i lt
  simp only [BitVec.getElem_or, BitVec.getElem_and, BitVec.getElem_xor]
  cases x[i] <;> cases y[i] <;> cases z[i] <;> rfl

/-- A state of the code as one of the standard. -/
def Sha1State.toState (s : Sha1State) : Sha1.State := ⟨s.a, s.b, s.c, s.d, s.e⟩

theorem toState_sha1Round (scheduled : ℕ → Sha1.Word) (s : Sha1State) (t : ℕ) :
    (sha1Round s (scheduled t, t)).toState = Sha1.round scheduled s.toState t := by
  have choice := ch_eq s.b s.c s.d
  have majority := maj_eq s.b s.c s.d
  unfold sha1Round Sha1.round Sha1.function Sha1.constant
  by_cases h₁ : t < 20
  · simp only [h₁, if_true, choice]
    rfl
  · by_cases h₂ : t < 40
    · simp only [h₁, h₂, if_true, if_false]
      rfl
    · by_cases h₃ : t < 60
      · simp only [h₁, h₂, h₃, if_true, if_false, majority]
        rfl
      · simp only [h₁, h₂, h₃, if_false]
        rfl

theorem toState_sha1Chunk (h : Sha1State) {chunk : List (BitVec 8)} {block : ℕ → Sha1.Word}
    (words : sha1Words chunk = (List.range 80).map (Sha1.schedule block)) :
    (sha1Chunk h chunk).toState = Sha1.compress h.toState block := by
  have rounds (indexes : List ℕ) (s : Sha1State) :
      ((indexes.map fun t ↦ (Sha1.schedule block t, t)).foldl sha1Round s).toState =
        indexes.foldl (Sha1.round (Sha1.schedule block)) s.toState := by
    induction indexes generalizing s with
    | nil => rfl
    | cons t indexes ih =>
      rw [List.map_cons, List.foldl_cons, List.foldl_cons, ih, toState_sha1Round]
  have steps : (sha1Words chunk).zipIdx =
      (List.range 80).map fun t ↦ (Sha1.schedule block t, t) := by
    rw [words]
    refine List.ext_getElem (by simp) fun n _ _ ↦ ?_
    rw [List.getElem_zipIdx, List.getElem_map, List.getElem_map, List.getElem_range, Nat.zero_add]
  have run := rounds (List.range 80) h
  rw [← steps] at run
  unfold sha1Chunk Sha1.compress
  rw [← run]
  generalize (sha1Words chunk).zipIdx.foldl sha1Round h = rounds
  rfl

end Rounds

/-- The bits of a string's UTF-8 encoding. -/
def messageBits (value : String) : List Bool :=
  value.toByteArray.data.toList.flatMap fun byte ↦ Sha1.bits byte.toBitVec

theorem bytesBits_utf8Bytes (value : String) : bytesBits (utf8Bytes value) = messageBits value := by
  have bytes : value.toByteArray.data.toList = value.toList.flatMap String.utf8EncodeChar := by
    rw [← String.utf8Encode_toList, List.utf8Encode]
    simp
  rw [messageBits, bytes, utf8Bytes, bytesBits, List.flatMap_map]

/-- Node ids are the first word of the SHA-1 digest of a name's UTF-8 bytes. -/
theorem sha1FirstU32_eq_digest (value : String) :
    sha1FirstU32 value = (Sha1.digest (messageBits value)).a.setWidth 64 := by
  have padded := bytesBits_sha1Message value
  rw [bytesBits_utf8Bytes] at padded
  have length : (Sha1.pad (messageBits value)).length = 8 * (sha1Message value).length := by
    rw [← padded, length_bytesBits]
  have whole := Sha1.length_pad (messageBits value)
  have blocks : (Sha1.pad (messageBits value)).length / 512 = (sha1Message value).length / 64 := by
    omega
  have chain (n : ℕ) (le : 64 * n ≤ (sha1Message value).length) (h : Sha1State) :
      (((List.range n).map fun index ↦ ((sha1Message value).drop (64 * index)).take 64).foldl
        sha1Chunk h).toState = (List.range n).foldl
          (fun h i ↦ Sha1.compress h (Sha1.blockWord (Sha1.pad (messageBits value)) i)) h.toState := by
    induction n with
    | zero => rfl
    | succ n ih =>
      rw [List.range_succ, List.map_append, List.foldl_append, List.foldl_append, ← ih (by omega),
        ← padded]
      refine toState_sha1Chunk _ (sha1Words_eq fun t lt ↦ ?_)
      exact chunk_word (sha1Message value) n t le lt
  have run := congrArg Sha1.State.a (chain ((sha1Message value).length / 64) (by omega)
    ⟨0x67452301, 0xefcdab89, 0x98badcfe, 0x10325476, 0xc3d2e1f0⟩)
  rw [Sha1.digest, blocks]
  exact congrArg (BitVec.setWidth 64) run

end Digest

section Mix

/-- Bob Jenkins' mix over 32-bit words. -/
def mix (a b c : BitVec 32) : BitVec 32 × BitVec 32 × BitVec 32 :=
  let a := (a - b - c) ^^^ (c >>> 13)
  let b := (b - c - a) ^^^ (a <<< 8)
  let c := (c - a - b) ^^^ (b >>> 13)
  let a := (a - b - c) ^^^ (c >>> 12)
  let b := (b - c - a) ^^^ (a <<< 16)
  let c := (c - a - b) ^^^ (b >>> 5)
  let a := (a - b - c) ^^^ (c >>> 3)
  let b := (b - c - a) ^^^ (a <<< 10)
  let c := (c - a - b) ^^^ (b >>> 15)
  (a, b, c)

def seed : BitVec 32 := 1315423911

/-- The compositions of the mix that hash one and three words. -/
def mixOne (a : BitVec 32) : BitVec 32 :=
  let (_, _, hash) := mix a 231232 (seed ^^^ a)
  let (_, _, hash) := mix 1232 a hash
  hash

def mixThree (a b c : BitVec 32) : BitVec 32 :=
  let (a, b, hash) := mix a b (seed ^^^ a ^^^ b ^^^ c)
  let (c, x, hash) := mix c 231232 hash
  let (y, _, hash) := mix 1232 a hash
  let (_, _, hash) := mix b x hash
  let (_, _, hash) := mix y c hash
  hash

section Lines

variable (a b c : BitVec 32)

theorem setWidth_and_hashMask (x : BitVec 64) :
    x &&& hashMask = (x.setWidth 32).setWidth 64 := by
  apply BitVec.eq_of_toNat_eq
  have mask : hashMask.toNat = 2 ^ 32 - 1 := rfl
  rw [BitVec.toNat_and, mask, Nat.and_two_pow_sub_one_eq_mod, BitVec.toNat_setWidth,
    BitVec.toNat_setWidth]
  omega

/-- A wrapping 64-bit subtraction, cut to 32 bits. -/
theorem sub_and_hashMask :
    (a.setWidth 64 - b.setWidth 64) &&& hashMask = (a - b).setWidth 64 := by
  rw [setWidth_and_hashMask]
  congr 1
  apply BitVec.eq_of_toNat_eq
  have ha := a.isLt
  have hb := b.isLt
  simp only [BitVec.toNat_setWidth, BitVec.toNat_sub]
  omega

theorem xor_shiftRight_and_hashMask (k : ℕ) :
    (a.setWidth 64 ^^^ (c.setWidth 64 >>> k)) &&& hashMask = (a ^^^ (c >>> k)).setWidth 64 := by
  rw [setWidth_and_hashMask]
  congr 1
  ext i lt
  have low : c.getLsbD (k + i) = true → k + i < 64 := fun set ↦ by
    have inside := BitVec.lt_of_getLsbD set
    omega
  simpa using low

theorem xor_shiftLeft_and_hashMask (k : ℕ) :
    (b.setWidth 64 ^^^ ((a.setWidth 64 <<< k) &&& hashMask)) &&& hashMask =
      (b ^^^ (a <<< k)).setWidth 64 := by
  rw [setWidth_and_hashMask, setWidth_and_hashMask]
  congr 1
  ext i lt
  simp

end Lines

theorem hashMix_eq_mix (a b c : BitVec 32) :
    hashMix (a.setWidth 64) (b.setWidth 64) (c.setWidth 64) =
      ((mix a b c).1.setWidth 64, (mix a b c).2.1.setWidth 64, (mix a b c).2.2.setWidth 64) := by
  simp only [hashMix, mix, sub_and_hashMask, xor_shiftRight_and_hashMask,
    xor_shiftLeft_and_hashMask]

theorem xor_setWidth (x y : BitVec 32) :
    x.setWidth 64 ^^^ y.setWidth 64 = (x ^^^ y).setWidth 64 := BitVec.setWidth_xor.symm

theorem setWidth_cut (x : BitVec 32) : (x.setWidth 64).setWidth 32 = x := by
  rw [BitVec.setWidth_setWidth_of_le _ (by omega), BitVec.setWidth_eq]

theorem setWidth_hashMask (x : BitVec 32) :
    x.setWidth 64 &&& hashMask = x.setWidth 64 := by
  rw [setWidth_and_hashMask, setWidth_cut]

/-- The seed and the constants of the 64-bit code are 32-bit words. -/
theorem words_eq : crushHashSeed = seed.setWidth 64 ∧
    (231232 : BitVec 64) = (231232 : BitVec 32).setWidth 64 ∧
    (1232 : BitVec 64) = (1232 : BitVec 32).setWidth 64 := by decide

theorem jenkinsHashThree_eq (a b c : BitVec 64) :
    jenkinsHashThree a b c =
      (mixThree (a.setWidth 32) (b.setWidth 32) (c.setWidth 32)).setWidth 64 := by
  obtain ⟨seeds, first, second⟩ := words_eq
  simp only [jenkinsHashThree, mixThree, setWidth_and_hashMask a, setWidth_and_hashMask b,
    setWidth_and_hashMask c, seeds, first, second, xor_setWidth, setWidth_hashMask, hashMix_eq_mix]

theorem jenkinsHashOne_eq (value : BitVec 64) :
    jenkinsHashOne value = (mixOne (value.setWidth 32)).signExtend 64 := by
  obtain ⟨seeds, first, second⟩ := words_eq
  simp only [jenkinsHashOne, mixOne, setWidth_and_hashMask value, seeds, first, second,
    xor_setWidth, setWidth_hashMask, hashMix_eq_mix, setWidth_cut]

theorem toNat_setWidth_lt (x : BitVec 32) : (x.setWidth 64).toNat < 2 ^ 32 := by
  have lt := x.isLt
  rw [BitVec.toNat_setWidth]
  omega

/-- The mix in masked 64-bit words is the mix in 32-bit words, and so are the hashes over it. -/
theorem masked_mix_exact :
    (∀ a b c : BitVec 64, a.toNat < 2 ^ 32 → b.toNat < 2 ^ 32 → c.toNat < 2 ^ 32 →
      hashMix a b c =
        ((mix (a.setWidth 32) (b.setWidth 32) (c.setWidth 32)).1.setWidth 64,
          (mix (a.setWidth 32) (b.setWidth 32) (c.setWidth 32)).2.1.setWidth 64,
          (mix (a.setWidth 32) (b.setWidth 32) (c.setWidth 32)).2.2.setWidth 64) ∧
      (hashMix a b c).1.toNat < 2 ^ 32 ∧ (hashMix a b c).2.1.toNat < 2 ^ 32 ∧
      (hashMix a b c).2.2.toNat < 2 ^ 32) ∧
    (∀ a b c : BitVec 64,
      jenkinsHashThree a b c =
        (mixThree (a.setWidth 32) (b.setWidth 32) (c.setWidth 32)).setWidth 64 ∧
      (jenkinsHashThree a b c).toNat < 2 ^ 32 ∧
      ∀ a' b' c' : BitVec 64, a'.setWidth 32 = a.setWidth 32 → b'.setWidth 32 = b.setWidth 32 →
        c'.setWidth 32 = c.setWidth 32 → jenkinsHashThree a' b' c' = jenkinsHashThree a b c) ∧
    ∀ value : BitVec 64,
      jenkinsHashOne value = (mixOne (value.setWidth 32)).signExtend 64 ∧
      -2 ^ 31 ≤ (jenkinsHashOne value).toInt ∧ (jenkinsHashOne value).toInt < 2 ^ 31 ∧
      ∀ value' : BitVec 64, value'.setWidth 32 = value.setWidth 32 →
        jenkinsHashOne value' = jenkinsHashOne value := by
  refine ⟨fun a b c ha hb hc ↦ ?_, fun a b c ↦ ?_, fun value ↦ ?_⟩
  · have lift {x : BitVec 64} (lt : x.toNat < 2 ^ 32) : (x.setWidth 32).setWidth 64 = x := by
      apply BitVec.eq_of_toNat_eq
      rw [BitVec.toNat_setWidth, BitVec.toNat_setWidth]
      omega
    have eq := hashMix_eq_mix (a.setWidth 32) (b.setWidth 32) (c.setWidth 32)
    rw [lift ha, lift hb, lift hc] at eq
    rw [eq]
    exact ⟨rfl, toNat_setWidth_lt _, toNat_setWidth_lt _, toNat_setWidth_lt _⟩
  · rw [jenkinsHashThree_eq]
    refine ⟨rfl, toNat_setWidth_lt _, fun a' b' c' ha hb hc ↦ ?_⟩
    rw [jenkinsHashThree_eq, ha, hb, hc]
  · rw [jenkinsHashOne_eq]
    have signed : ((mixOne (value.setWidth 32)).signExtend 64).toInt =
        (mixOne (value.setWidth 32)).toInt := BitVec.toInt_signExtend_of_le (by omega)
    rw [signed]
    have lower := BitVec.le_toInt (mixOne (value.setWidth 32))
    have upper := BitVec.toInt_lt (x := mixOne (value.setWidth 32))
    refine ⟨rfl, by simpa using lower, by simpa using upper, fun value' same ↦ ?_⟩
    rw [jenkinsHashOne_eq, same]

/-- The mix of a partition's input with a node id and a round. -/
theorem masked_mix_sample :
    hashMix 7 0x84371f88 1 = ((mix 7 0x84371f88 1).1.setWidth 64,
      (mix 7 0x84371f88 1).2.1.setWidth 64, (mix 7 0x84371f88 1).2.2.setWidth 64) :=
  (masked_mix_exact.1 7 0x84371f88 1 (by decide) (by decide) (by decide)).1

end Mix

end Crush

end Clustodian
