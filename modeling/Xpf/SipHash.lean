/-
The keyed hash of the SYN cookies: `SipHash24` of `userspace-dp/src/screen/syncookie.rs`.

SipHash-2-4 is defined on a whole message: the message is padded with zeros and a byte of its
length to words of eight bytes, each word goes through two rounds, and four more rounds finish
(`sipHash24`). The code takes the message in pieces. It compresses a word as soon as it has one
and keeps the bytes that do not fill a word in a buffer (`Absorbed`), so how the message was cut
makes no difference.
-/
import Xpf.LittleEndian
import Xpf.Runs
import Xpf.SessionKeys

set_option autoImplicit false

namespace Xpf.SipHash

open Xpf.LittleEndian (decode uint64)
open Xpf.Sessions (IpAddr)

/-! ## SipHash-2-4 -/

/-- `rotate_left`. -/
def rotateLeft (x n : UInt64) : UInt64 := x <<< n ||| x >>> (64 - n)

/-- The four words of the state. -/
structure State where
  v0 : UInt64
  v1 : UInt64
  v2 : UInt64
  v3 : UInt64
  deriving DecidableEq, Repr

/-- One round: the left half, the right half, and the two halves crossed. -/
def sipRound (s : State) : State :=
  let a0 := s.v0 + s.v1
  let a1 := rotateLeft s.v1 13 ^^^ a0
  let a2 := s.v2 + s.v3
  let a3 := rotateLeft s.v3 16 ^^^ a2
  let b0 := rotateLeft a0 32 + a3
  let b3 := rotateLeft a3 21 ^^^ b0
  let b2 := a2 + a1
  let b1 := rotateLeft a1 17 ^^^ b2
  ⟨b0, b1, rotateLeft b2 32, b3⟩

def initial (k0 k1 : UInt64) : State :=
  ⟨0x736f6d6570736575 ^^^ k0, 0x646f72616e646f6d ^^^ k1, 0x6c7967656e657261 ^^^ k0, 0x7465646279746573 ^^^ k1⟩

/-- Two rounds for a word. -/
def absorbWord (s : State) (word : UInt64) : State :=
  let s := sipRound (sipRound { s with v3 := s.v3 ^^^ word })
  { s with v0 := s.v0 ^^^ word }

/-- Four rounds at the end. -/
def finalize (s : State) : UInt64 :=
  let s := sipRound (sipRound (sipRound (sipRound { s with v2 := s.v2 ^^^ 0xff })))
  s.v0 ^^^ s.v1 ^^^ s.v2 ^^^ s.v3

/-- The words that eight bytes spell, the lowest byte first. Bytes that fill no word are left
out. -/
def words : List UInt8 → List UInt64
  | b0 :: b1 :: b2 :: b3 :: b4 :: b5 :: b6 :: b7 :: rest => uint64 [b0, b1, b2, b3, b4, b5, b6, b7] :: words rest
  | _ => []

/-- The message, zeros, and the length modulo 256 as the last byte of a word. -/
def padded (message : List UInt8) : List UInt8 :=
  message ++ List.replicate (7 - message.length % 8) 0 ++ [UInt8.ofNat message.length]

/-- The hash of a message. -/
def sipHash24 (k0 k1 : UInt64) (message : List UInt8) : UInt64 :=
  finalize ((words (padded message)).foldl absorbWord (initial k0 k1))

/-! ## The streaming hash -/

/-- `SipHash24`. -/
structure SipHash24 extends State where
  tail : List UInt8
  tailLen : ℕ
  len : UInt64

namespace SipHash24

def new (k0 k1 : UInt64) : SipHash24 where
  v0 := 0x736f6d6570736575 ^^^ k0
  v1 := 0x646f72616e646f6d ^^^ k1
  v2 := 0x6c7967656e657261 ^^^ k0
  v3 := 0x7465646279746573 ^^^ k1
  tail := List.replicate 8 0
  tailLen := 0
  len := 0

variable (h : SipHash24)

def round : SipHash24 :=
  let v0 := h.v0 + h.v1
  let v2 := h.v2 + h.v3
  let v1 := rotateLeft h.v1 13
  let v3 := rotateLeft h.v3 16
  let v1 := v1 ^^^ v0
  let v3 := v3 ^^^ v2
  let v0 := rotateLeft v0 32
  let v2 := v2 + v1
  let v0 := v0 + v3
  let v1 := rotateLeft v1 17
  let v3 := rotateLeft v3 21
  let v1 := v1 ^^^ v2
  let v3 := v3 ^^^ v0
  let v2 := rotateLeft v2 32
  { h with v0, v1, v2, v3 }

def compress (block : UInt64) : SipHash24 :=
  let h := { h with v3 := h.v3 ^^^ block }
  let h := h.round.round
  { h with v0 := h.v0 ^^^ block }

/-- `copy_from_slice` into the bytes from a position on. -/
def copyAt (array : List UInt8) (pos : ℕ) (bytes : List UInt8) : List UInt8 :=
  array.take pos ++ bytes ++ array.drop (pos + bytes.length)

/-- The bytes that the buffer still takes go into it; a full one is compressed. -/
def fillTail (bytes : List UInt8) : SipHash24 × List UInt8 :=
  if 0 < h.tailLen then
    let fill := min (8 - h.tailLen) bytes.length
    let h := { h with tail := copyAt h.tail h.tailLen (bytes.take fill), tailLen := h.tailLen + fill }
    let bytes := bytes.drop fill
    if h.tailLen = 8 then ({ h.compress (uint64 h.tail) with tail := List.replicate 8 0, tailLen := 0 }, bytes)
    else (h, bytes)
  else (h, bytes)

/-- The loop over whole blocks, with the number of bytes as fuel. -/
def absorbBlocks : ℕ → SipHash24 → List UInt8 → SipHash24 × List UInt8
  | 0, h, bytes => (h, bytes)
  | fuel + 1, h, bytes =>
    if 8 ≤ bytes.length then absorbBlocks fuel (h.compress (uint64 (bytes.take 8))) (bytes.drop 8) else (h, bytes)

/-- The bytes that are left. -/
def keepTail (bytes : List UInt8) : SipHash24 :=
  if bytes ≠ [] then { h with tail := copyAt h.tail 0 bytes, tailLen := bytes.length } else h

def writeBytes (bytes : List UInt8) : SipHash24 :=
  let h := { h with len := h.len + UInt64.ofNat bytes.length }
  let (h, bytes) := h.fillTail bytes
  let (h, bytes) := absorbBlocks bytes.length h bytes
  h.keepTail bytes

def writeU8 (value : UInt8) : SipHash24 := h.writeBytes [value]

/-- `to_be_bytes`, of as many bytes as the value has. -/
def toBeBytes (count value : ℕ) : List UInt8 := (LittleEndian.encode count value).reverse

def writeU16 (value : UInt16) : SipHash24 := h.writeBytes (toBeBytes 2 value.toNat)

def writeU64 (value : UInt64) : SipHash24 := h.writeBytes (toBeBytes 8 value.toNat)

def writeIp : IpAddr → SipHash24
  | .v4 addr => (h.writeU8 4).writeBytes (toBeBytes 4 addr.toNat)
  | .v6 addr => (h.writeU8 6).writeBytes (toBeBytes 16 addr.toNat)

/-- The last word: the length in its highest byte, and the bytes that are left. -/
def lastWord : UInt64 :=
  (List.range h.tailLen).foldl (fun last i => last ||| (h.tail.getD i 0).toUInt64 <<< UInt64.ofNat (8 * i)) (h.len <<< 56)

def finish : UInt64 :=
  let h := h.compress h.lastWord
  let h := { h with v2 := h.v2 ^^^ 0xff }
  let h := h.round.round.round.round
  h.v0 ^^^ h.v1 ^^^ h.v2 ^^^ h.v3

end SipHash24

/-! ## Words -/

theorem words_block {block : List UInt8} (h : block.length = 8) (rest : List UInt8) :
    words (block ++ rest) = uint64 block :: words rest := by
  match block, h with
  | [b0, b1, b2, b3, b4, b5, b6, b7], _ => rfl

theorem words_append {full : List UInt8} (h : full.length % 8 = 0) (rest : List UInt8) :
    words (full ++ rest) = words full ++ words rest := by
  induction hn : full.length using Nat.strongRecOn generalizing full with
  | ind n ih =>
    by_cases hnil : full = []
    · subst hnil
      rfl
    · have hlong : 8 ≤ full.length := by
        have := List.length_pos_of_ne_nil hnil
        omega
      -- the first block goes, the rest is shorter
      have htake : (full.take 8).length = 8 := by rw [List.length_take]; omega
      have hdrop : (full.drop 8).length = full.length - 8 := List.length_drop
      have hrest := ih (full.drop 8).length (by omega) (by omega) rfl
      rw [← List.take_append_drop 8 full, List.append_assoc, words_block htake, words_block htake, hrest,
        List.cons_append]

namespace SipHash24

variable {h : SipHash24}

/-! ## One block -/

theorem round_toState (h : SipHash24) : h.round.toState = sipRound h.toState := rfl

theorem compress_eq (h : SipHash24) (block : UInt64) :
    h.compress block = { h with toState := absorbWord h.toState block } := rfl

theorem finish_eq (h : SipHash24) : h.finish = finalize (absorbWord h.toState h.lastWord) := by
  simp only [finish, finalize]
  rw [round_toState, round_toState, round_toState, round_toState, compress_eq]

/-! ## The last word -/

theorem foldl_or (f : ℕ → UInt64) (acc : UInt64) (n : ℕ) :
    (List.range n).foldl (fun last i => last ||| f i) acc
      = acc ||| (List.range n).foldl (fun last i => last ||| f i) 0 := by
  induction n with
  | zero => exact UInt64.or_zero.symm
  | succ n ih => rw [List.range_succ, List.foldl_append, List.foldl_append, ih, List.foldl_cons, List.foldl_nil,
      List.foldl_cons, List.foldl_nil, UInt64.or_assoc]

theorem decode_lt (bytes : List UInt8) : decode bytes < 2 ^ (8 * bytes.length) := by
  induction bytes with
  | nil => decide
  | cons b bytes ih =>
    have hb := b.toNat_lt
    have hpow : 2 ^ (8 * (b :: bytes).length) = 2 ^ (8 * bytes.length) * 256 := by
      rw [List.length_cons, Nat.mul_add, Nat.pow_add]
    rw [decode, hpow]
    omega

theorem decode_append (a b : List UInt8) : decode (a ++ b) = decode a + 2 ^ (8 * a.length) * decode b := by
  induction a with
  | nil => simp [decode]
  | cons x a ih =>
    have hpow : 2 ^ (8 * (x :: a).length) = 256 * 2 ^ (8 * a.length) := by
      rw [List.length_cons, Nat.mul_add, Nat.pow_add, Nat.mul_comm]
    rw [List.cons_append, decode, ih, decode, hpow]
    ring

theorem decode_zeros (n : ℕ) : decode (List.replicate n 0) = 0 := by
  induction n with
  | zero => rfl
  | succ n ih =>
    rw [List.replicate_succ, decode, ih]
    rfl

/-- The bytes of the buffer, read as a number. -/
theorem toNat_foldl_tail (tail : List UInt8) {n : ℕ} (hn : n ≤ 7) (hlen : n ≤ tail.length) :
    ((List.range n).foldl (fun last i => last ||| (tail.getD i 0).toUInt64 <<< UInt64.ofNat (8 * i)) (0 : UInt64)).toNat
      = decode (tail.take n) := by
  induction n with
  | zero => rfl
  | succ n ih =>
    have hget : tail[n]? = some (tail[n]) := List.getElem?_eq_getElem (by omega)
    have htake : tail.take (n + 1) = tail.take n ++ [tail[n]] := List.take_succ_eq_append_getElem (by omega)
    have hbyte := (tail[n]).toNat_lt
    have hlow : decode (tail.take n) < 2 ^ (8 * n) := by
      have hlt := decode_lt (tail.take n)
      rwa [List.length_take, Nat.min_eq_left (by omega)] at hlt
    have hshift : ((tail.getD n 0).toUInt64 <<< UInt64.ofNat (8 * n)).toNat = (tail[n]).toNat <<< (8 * n) := by
      rw [List.getD_eq_getElem?_getD, hget, Option.getD_some, UInt64.toNat_shiftLeft, UInt8.toNat_toUInt64,
        UInt64.toNat_ofNat_of_lt' (by rw [UInt64.size]; omega), Nat.mod_eq_of_lt (by omega : 8 * n < 64), Nat.shiftLeft_eq]
      apply Nat.mod_eq_of_lt
      calc (tail[n]).toNat * 2 ^ (8 * n) < 2 ^ 8 * 2 ^ (8 * n) := Nat.mul_lt_mul_of_pos_right hbyte (Nat.two_pow_pos _)
        _ = 2 ^ (8 + 8 * n) := (Nat.pow_add 2 8 _).symm
        _ ≤ 2 ^ 64 := Nat.pow_le_pow_right (by decide) (by omega)
    rw [List.range_succ, List.foldl_append, List.foldl_cons, List.foldl_nil, UInt64.toNat_or, hshift,
      ih (by omega) (by omega), htake, decode_append, List.length_take, Nat.min_eq_left (by omega), Nat.or_comm,
      ← Nat.shiftLeft_add_eq_or_of_lt hlow, Nat.shiftLeft_eq]
    simp only [decode]
    ring

/-- The last word is the padded end of the message. -/
theorem lastWord_eq (hlen : h.tailLen < 8) (htail : h.tail.length = 8) {total : ℕ} (htotal : h.len = UInt64.ofNat total) :
    h.lastWord = uint64 (h.tail.take h.tailLen ++ List.replicate (7 - h.tailLen) 0 ++ [UInt8.ofNat total]) := by
  have htake : (h.tail.take h.tailLen).length = h.tailLen := by rw [List.length_take]; omega
  have hlength : (h.tail.take h.tailLen ++ List.replicate (7 - h.tailLen) 0 ++ [UInt8.ofNat total]).length = 8 := by
    rw [List.length_append, List.length_append, htake, List.length_replicate, List.length_singleton]
    omega
  have hlow : decode (h.tail.take h.tailLen) < 2 ^ 56 := by
    have hlt := decode_lt (h.tail.take h.tailLen)
    rw [htake] at hlt
    exact Nat.lt_of_lt_of_le hlt (Nat.pow_le_pow_right (by decide) (by omega))
  have hhigh : (h.len <<< 56).toNat = (total % 256) <<< 56 := by
    rw [htotal, UInt64.toNat_shiftLeft, UInt64.toNat_ofNat', Nat.shiftLeft_eq, Nat.shiftLeft_eq]
    have h56 : (56 : UInt64).toNat % 64 = 56 := rfl
    rw [h56]
    omega
  apply UInt64.toNat_inj.mp
  rw [lastWord, foldl_or, UInt64.toNat_or, toNat_foldl_tail h.tail (by omega) (by omega), hhigh,
    ← Nat.shiftLeft_add_eq_or_of_lt hlow, uint64, List.take_of_length_le (Nat.le_of_eq hlength), decode_append,
    decode_append, decode_zeros, List.length_append, htake, List.length_replicate]
  have hexp : 8 * (h.tailLen + (7 - h.tailLen)) = 56 := by omega
  have hbyte : (UInt8.ofNat total).toNat = total % 256 := UInt8.toNat_ofNat'
  simp only [hexp, decode, hbyte, Nat.shiftLeft_eq, UInt64.toNat_ofNat']
  omega

/-! ## The message so far -/

/-- The hash has taken a message: its whole words are compressed, the buffer starts with the bytes
left over, and its length is known modulo 2 ^ 64. -/
structure Absorbed (k0 k1 : UInt64) (message : List UInt8) (h : SipHash24) : Prop where
  short : h.tailLen < 8
  size : h.tail.length = 8
  split : ∃ full, full.length % 8 = 0 ∧ message = full ++ h.tail.take h.tailLen
    ∧ h.toState = (words full).foldl absorbWord (initial k0 k1)
  counted : h.len = UInt64.ofNat message.length

theorem absorbed_new (k0 k1 : UInt64) : Absorbed k0 k1 [] (new k0 k1) :=
  ⟨Nat.zero_lt_succ 7, rfl, ⟨[], rfl, rfl, rfl⟩, rfl⟩

/-- What is left to do in a write: the words so far, the buffer and the bytes still to come. -/
structure Pending (k0 k1 : UInt64) (message : List UInt8) (h : SipHash24) (bytes : List UInt8) : Prop where
  short : h.tailLen < 8
  size : h.tail.length = 8
  split : ∃ full, full.length % 8 = 0 ∧ message = full ++ h.tail.take h.tailLen ++ bytes
    ∧ h.toState = (words full).foldl absorbWord (initial k0 k1)
  counted : h.len = UInt64.ofNat message.length
  empty : h.tailLen = 0 ∨ bytes = []

theorem foldl_words_snoc {full block : List UInt8} (hfull : full.length % 8 = 0) (hblock : block.length = 8) (s : State) :
    (words (full ++ block)).foldl absorbWord s = absorbWord ((words full).foldl absorbWord s) (uint64 block) := by
  have hwords := words_block hblock []
  rw [List.append_nil] at hwords
  rw [words_append hfull, hwords, List.foldl_append]
  rfl

theorem fillTail_pending {k0 k1 : UInt64} {message : List UInt8} (hh : Absorbed k0 k1 message h) (bytes : List UInt8) :
    let h' := { h with len := h.len + UInt64.ofNat bytes.length }
    Pending k0 k1 (message ++ bytes) (h'.fillTail bytes).1 (h'.fillTail bytes).2 := by
  obtain ⟨hshort, hsize, ⟨full, hfull, hmessage, hstate⟩, hcounted⟩ := hh
  have hlen : h.len + UInt64.ofNat bytes.length = UInt64.ofNat (message ++ bytes).length := by
    rw [hcounted, List.length_append, UInt64.ofNat_add]
  dsimp only
  rw [fillTail]
  by_cases hpos : 0 < h.tailLen
  · rw [if_pos hpos]
    dsimp only
    -- the buffer after the bytes that it takes
    have htake : ∀ n, n ≤ bytes.length → h.tailLen + n ≤ 8 →
        (copyAt h.tail h.tailLen (bytes.take n)).take (h.tailLen + n) = h.tail.take h.tailLen ++ bytes.take n
          ∧ (copyAt h.tail h.tailLen (bytes.take n)).length = 8 := by
      intro n hn hle
      have hleft : (h.tail.take h.tailLen ++ bytes.take n).length = h.tailLen + n := by
        rw [List.length_append, List.length_take, List.length_take]
        omega
      rw [copyAt]
      refine ⟨?_, ?_⟩
      · rw [← hleft, List.take_left]
      · rw [List.length_append, hleft, List.length_drop, List.length_take]
        omega
    obtain ⟨hbuffer, hbufferSize⟩ := htake (min (8 - h.tailLen) bytes.length) (Nat.min_le_right _ _) (by omega)
    have hfill : min (8 - h.tailLen) bytes.length = bytes.length ∨ h.tailLen + min (8 - h.tailLen) bytes.length = 8 := by
      omega
    have hle : h.tailLen + min (8 - h.tailLen) bytes.length ≤ 8 := by omega
    generalize min (8 - h.tailLen) bytes.length = fill at hbuffer hbufferSize hfill hle ⊢
    generalize copyAt h.tail h.tailLen (bytes.take fill) = buffer at hbuffer hbufferSize ⊢
    by_cases hfills : h.tailLen + fill = 8
    · -- the buffer is a block
      rw [if_pos hfills]
      rw [hfills, List.take_of_length_le (Nat.le_of_eq hbufferSize)] at hbuffer
      refine ⟨Nat.zero_lt_succ 7, rfl, ⟨full ++ buffer, ?_, ?_, ?_⟩, hlen, .inl rfl⟩
      · rw [List.length_append, hbufferSize]
        omega
      · rw [hbuffer, hmessage, List.take_zero, List.append_nil, List.append_assoc, List.append_assoc, List.append_assoc,
          List.take_append_drop]
      · rw [foldl_words_snoc hfull hbufferSize, ← hstate]
        rfl
    · -- all bytes went into the buffer
      rw [if_neg hfills]
      have hall := hfill.resolve_right hfills
      refine ⟨Nat.lt_of_le_of_ne hle hfills, hbufferSize, ⟨full, hfull, ?_, hstate⟩, hlen, .inr ?_⟩
      · dsimp only
        rw [hbuffer, hmessage, List.append_assoc, List.append_assoc, List.append_assoc, List.take_append_drop]
      · rw [hall, List.drop_length]
  · rw [if_neg hpos]
    exact ⟨hshort, hsize, ⟨full, hfull, by rw [hmessage], hstate⟩, hlen, .inl (Nat.eq_zero_of_not_pos hpos)⟩

/-- The loop leaves fewer bytes than a block. -/
theorem absorbBlocks_pending {k0 k1 : UInt64} {message : List UInt8} (fuel : ℕ) (h : SipHash24) {bytes : List UInt8}
    (hfuel : bytes.length ≤ fuel) (hp : Pending k0 k1 message h bytes) :
    Pending k0 k1 message (absorbBlocks fuel h bytes).1 (absorbBlocks fuel h bytes).2
      ∧ (absorbBlocks fuel h bytes).2.length < 8 := by
  induction fuel generalizing h bytes with
  | zero =>
    rw [absorbBlocks]
    exact ⟨hp, Nat.lt_of_le_of_lt hfuel (by decide)⟩
  | succ fuel ih =>
    rw [absorbBlocks]
    by_cases hlong : 8 ≤ bytes.length
    · rw [if_pos hlong]
      have hdrop : (bytes.drop 8).length = bytes.length - 8 := List.length_drop
      apply ih
      · omega
      · obtain ⟨hshort, hsize, ⟨full, hfull, hmessage, hstate⟩, hcounted, hempty⟩ := hp
        have hzero : h.tailLen = 0 := by
          apply hempty.resolve_right
          rintro rfl
          exact absurd hlong (by decide)
        have htake : (bytes.take 8).length = 8 := by rw [List.length_take]; omega
        refine ⟨hshort, hsize, ⟨full ++ bytes.take 8, ?_, ?_, ?_⟩, hcounted, .inl hzero⟩
        · rw [List.length_append, htake]
          omega
        · rw [compress_eq, hmessage, hzero, List.take_zero, List.append_nil, List.append_nil, List.append_assoc,
            List.take_append_drop]
        · rw [compress_eq, foldl_words_snoc hfull htake, ← hstate]
    · rw [if_neg hlong]
      exact ⟨hp, Nat.lt_of_not_le hlong⟩

theorem keepTail_absorbed {k0 k1 : UInt64} {message bytes : List UInt8} (hp : Pending k0 k1 message h bytes)
    (hshort : bytes.length < 8) : Absorbed k0 k1 message (h.keepTail bytes) := by
  obtain ⟨htail, hsize, ⟨full, hfull, hmessage, hstate⟩, hcounted, hempty⟩ := hp
  rw [keepTail]
  by_cases hnil : bytes = []
  · subst hnil
    rw [if_neg (not_not.mpr rfl)]
    rw [List.append_nil] at hmessage
    exact ⟨htail, hsize, ⟨full, hfull, hmessage, hstate⟩, hcounted⟩
  · rw [if_pos hnil]
    have hzero := hempty.resolve_right hnil
    refine ⟨hshort, ?_, ⟨full, hfull, ?_, hstate⟩, hcounted⟩
    · dsimp only [copyAt]
      rw [List.length_append, List.length_append, List.length_take, List.length_drop]
      omega
    · dsimp only [copyAt]
      rw [List.take_zero, List.nil_append, List.take_left, hmessage, hzero, List.take_zero, List.append_nil]

/-- One write takes its bytes. -/
theorem Absorbed.writeBytes {k0 k1 : UInt64} {message : List UInt8} (hh : Absorbed k0 k1 message h) (bytes : List UInt8) :
    Absorbed k0 k1 (message ++ bytes) (h.writeBytes bytes) := by
  have hfilled := fillTail_pending hh bytes
  obtain ⟨hpending, hshort⟩ := absorbBlocks_pending _ _ (Nat.le_refl _) hfilled
  exact keepTail_absorbed hpending hshort

/-- The end of a message that has been taken. -/
theorem Absorbed.finish {k0 k1 : UInt64} {message : List UInt8} (hh : Absorbed k0 k1 message h) :
    h.finish = sipHash24 k0 k1 message := by
  obtain ⟨hshort, hsize, ⟨full, hfull, hmessage, hstate⟩, hcounted⟩ := hh
  have htake : (h.tail.take h.tailLen).length = h.tailLen := by rw [List.length_take]; omega
  have hmod : message.length % 8 = h.tailLen := by
    rw [hmessage, List.length_append, htake]
    omega
  have hpadded : padded message
      = full ++ (h.tail.take h.tailLen ++ List.replicate (7 - h.tailLen) 0 ++ [UInt8.ofNat message.length]) := by
    rw [padded, hmod, List.append_assoc, List.append_assoc]
    nth_rewrite 1 [hmessage]
    rw [List.append_assoc]
  have hblock : (h.tail.take h.tailLen ++ List.replicate (7 - h.tailLen) 0 ++ [UInt8.ofNat message.length]).length = 8 := by
    rw [List.length_append, List.length_append, htake, List.length_replicate, List.length_singleton]
    omega
  rw [finish_eq, sipHash24, hpadded, foldl_words_snoc hfull hblock, ← hstate, lastWord_eq hshort hsize hcounted]

/-! ## Runs of writes -/

/-- The write calls. -/
inductive Write
  | bytes (bytes : List UInt8)
  | u8 (value : UInt8)
  | u16 (value : UInt16)
  | u64 (value : UInt64)
  | ip (addr : IpAddr)

namespace Write

/-- What a call writes. -/
def octets : Write → List UInt8
  | bytes b => b
  | u8 value => [value]
  | u16 value => toBeBytes 2 value.toNat
  | u64 value => toBeBytes 8 value.toNat
  | ip (.v4 addr) => 4 :: toBeBytes 4 addr.toNat
  | ip (.v6 addr) => 6 :: toBeBytes 16 addr.toNat

end Write

def write (h : SipHash24) : Write → SipHash24
  | .bytes b => h.writeBytes b
  | .u8 value => h.writeU8 value
  | .u16 value => h.writeU16 value
  | .u64 value => h.writeU64 value
  | .ip addr => h.writeIp addr

theorem Absorbed.write {k0 k1 : UInt64} {message : List UInt8} (hh : Absorbed k0 k1 message h) (w : Write) :
    Absorbed k0 k1 (message ++ w.octets) (h.write w) := by
  cases w with
  | bytes b => exact hh.writeBytes b
  | u8 value => exact hh.writeBytes [value]
  | u16 value => exact hh.writeBytes _
  | u64 value => exact hh.writeBytes _
  | ip addr =>
    -- the family and the address are two writes
    cases addr with
    | v4 addr =>
      have htwo := (hh.writeBytes [4]).writeBytes (toBeBytes 4 addr.toNat)
      rwa [List.append_assoc] at htwo
    | v6 addr =>
      have htwo := (hh.writeBytes [6]).writeBytes (toBeBytes 16 addr.toNat)
      rwa [List.append_assoc] at htwo

theorem absorbed_run (k0 k1 : UInt64) (writes : List Write) :
    Absorbed k0 k1 (writes.flatMap Write.octets) (Runs.run write (new k0 k1) writes) := by
  induction writes using List.reverseRecOn with
  | nil => exact absorbed_new k0 k1
  | append_singleton writes w ih =>
    rw [Runs.run_snoc, List.flatMap_append, List.flatMap_singleton]
    exact ih.write w

/-- **The streaming hash is SipHash-2-4.** For every key and every run of write calls, of any
lengths, the value at the end is the hash of all the bytes written. In particular it is the
hash of a message, however the message is cut into pieces. -/
theorem finish_eq_sipHash24 (k0 k1 : UInt64) (writes : List Write) :
    (Runs.run write (new k0 k1) writes).finish = sipHash24 k0 k1 (writes.flatMap Write.octets)
      ∧ ∀ pieces : List (List UInt8),
        (Runs.run writeBytes (new k0 k1) pieces).finish = sipHash24 k0 k1 pieces.flatten := by
  refine ⟨(absorbed_run k0 k1 writes).finish, fun pieces => ?_⟩
  apply Absorbed.finish
  induction pieces using List.reverseRecOn with
  | nil => exact absorbed_new k0 k1
  | append_singleton pieces piece ih =>
    rw [Runs.run_snoc, List.flatten_append, List.flatten_singleton]
    exact ih.writeBytes piece

/-- The reference vector of the message 0, 1, …, 14 under the key 0, 1, …, 15. -/
example : sipHash24 0x0706050403020100 0x0f0e0d0c0b0a0908 [0, 1, 2, 3, 4, 5, 6, 7, 8, 9, 10, 11, 12, 13, 14]
    = 0xa129ca6149be45e5 := by decide +kernel

end SipHash24

end Xpf.SipHash
