/-
Full checksums of a packet as sums of words.

A full recomputation sums the words of the pseudo-header and of the segment with a 32-bit
accumulator, which no IP packet overflows. What a rewrite does to such a sum is said up to
multiples of `0xFFFF` (`Adds`): replacing words adds what an incremental update adds for
them, and a sum that is not zero is finished the same way with or without such multiples.
-/
import Xpf.FrameNatForm
import Xpf.WordSums

set_option autoImplicit false

namespace Xpf.Frames

open Xpf.ByteBuffer Xpf.Edits Xpf.Edits.Edit Xpf.OnesComplement Xpf.WordSums

/-! ## The accumulator -/

theorem checksum16AddBytes_toNat (s : UInt32) (b : Bytes) :
    (checksum16AddBytes s b).toNat = (s.toNat + wordSum b) % 4294967296 := by
  induction s, b using checksum16AddBytes.induct with
  | case1 s hi lo rest ih =>
    rw [checksum16AddBytes, ih, wordSum_cons_cons, UInt32.toNat_add, UInt16.toNat_toUInt32]
    omega
  | case2 s last =>
    have hlast := UInt8.toNat_lt last
    rw [checksum16AddBytes, UInt32.toNat_add, wordSum]
    have hshift : (last.toUInt32 <<< 8).toNat = last.toNat * 256 := by
      rw [UInt32.toNat_shiftLeft, UInt8.toNat_toUInt32, Nat.shiftLeft_eq]
      change last.toNat * 256 % 4294967296 = _
      omega
    rw [hshift]
  | case3 s =>
    have hs := UInt32.toNat_lt s
    rw [checksum16AddBytes, wordSum_nil]
    omega

/-- `checksum16`. -/
def checksum16 (bytes : Bytes) : UInt16 := checksum16Finish (checksum16AddBytes 0 bytes).toNat

/-- The segments and headers that fit an IP packet do not overflow the accumulator. -/
theorem wordSum_lt {b : Bytes} (h : b.length ≤ 65575) : wordSum b < 2148860000 := by
  have := wordSum_le b
  omega

theorem checksum16_eq {b : Bytes} (h : b.length ≤ 65575) :
    checksum16 b = checksum16Finish (wordSum b) := by
  have hlt := wordSum_lt h
  rw [checksum16, checksum16AddBytes_toNat, UInt32.toNat_zero, Nat.zero_add,
    Nat.mod_eq_of_lt (by omega)]

/-! ## The pseudo-headers -/

/-- What the IPv4 checksum of a segment sums up, in the packet. -/
def l4Sum4 (protocol : UInt8) (ihl : ℕ) (b : Bytes) : ℕ :=
  wordSum (sub b 12 4) + wordSum (sub b 16 4) + protocol.toNat
    + (saturateLen16 (b.length - ihl)).toNat + wordSum (b.drop ihl)

/-- The length of a segment as the IPv6 pseudo-header has it. -/
def lenWords (len : ℕ) : Bytes :=
  [UInt8.ofNat (len / 16777216), UInt8.ofNat (len / 65536), UInt8.ofNat (len / 256),
    UInt8.ofNat len]

/-- What the IPv6 checksum of a segment sums up, in the packet. -/
def l4Sum6 (protocol : UInt8) (relL4 : ℕ) (b : Bytes) : ℕ :=
  wordSum (sub b 8 16) + wordSum (sub b 24 16) + wordSum (lenWords (b.length - relL4))
    + protocol.toNat + wordSum (b.drop relL4)

theorem wordSum_protocol (protocol : UInt8) : wordSum [0, protocol] = protocol.toNat := by
  rw [wordSum_cons_cons, wordSum_nil, fromBe_toNat, UInt8.toNat_zero]
  omega

theorem checksum16Ipv4_eq {b : Bytes} {ihl : ℕ} (protocol : UInt8) (h : b.length ≤ 65575) :
    checksum16Ipv4 (sub b 12 4) (sub b 16 4) protocol (b.drop ihl)
      = checksum16Finish (l4Sum4 protocol ihl b) := by
  have hsrc := wordSum_le (sub b 12 4)
  have hdst := wordSum_le (sub b 16 4)
  have hs4 : (sub b 12 4).length ≤ 4 := List.length_take_le _ _
  have hd4 : (sub b 16 4).length ≤ 4 := List.length_take_le _ _
  have hlen := UInt16.toNat_lt (saturateLen16 (b.drop ihl).length)
  have hproto := UInt8.toNat_lt protocol
  have hpay : wordSum (b.drop ihl) < 2148860000 := by
    apply wordSum_lt
    rw [List.length_drop]
    omega
  rw [checksum16Ipv4, checksum16AddBytes_toNat, checksum16AddBytes_toNat, checksum16AddBytes_toNat,
    checksum16AddBytes_toNat, checksum16AddBytes_toNat, wordSum_protocol, wordSum_toBe,
    UInt32.toNat_zero, l4Sum4]
  rw [List.length_drop] at hlen ⊢
  congr 1
  omega

theorem checksum16Ipv6_eq {b : Bytes} {relL4 : ℕ} (protocol : UInt8) (h : b.length ≤ 65575) :
    checksum16Ipv6 (sub b 8 16) (sub b 24 16) protocol (b.drop relL4)
      = checksum16Finish (l4Sum6 protocol relL4 b) := by
  have hsrc := wordSum_le (sub b 8 16)
  have hdst := wordSum_le (sub b 24 16)
  have hs : (sub b 8 16).length ≤ 16 := List.length_take_le _ _
  have hd : (sub b 24 16).length ≤ 16 := List.length_take_le _ _
  have hlen := wordSum_le (lenWords (b.length - relL4))
  have hlen4 : (lenWords (b.length - relL4)).length = 4 := rfl
  have hproto := UInt8.toNat_lt protocol
  have hnh : wordSum [0, 0, 0, protocol] = protocol.toNat := by
    rw [wordSum_cons_cons, wordSum_protocol, fromBe_toNat, UInt8.toNat_zero]
    omega
  have hpay : wordSum (b.drop relL4) < 2148860000 := by
    apply wordSum_lt
    rw [List.length_drop]
    omega
  rw [checksum16Ipv6, checksum16AddBytes_toNat, checksum16AddBytes_toNat, checksum16AddBytes_toNat,
    checksum16AddBytes_toNat, checksum16AddBytes_toNat, hnh, UInt32.toNat_zero, l4Sum6,
    List.length_drop]
  change checksum16Finish _ = _
  congr 1
  rw [show [UInt8.ofNat ((b.length - relL4) / 16777216), UInt8.ofNat ((b.length - relL4) / 65536),
    UInt8.ofNat ((b.length - relL4) / 256), UInt8.ofNat (b.length - relL4)]
    = lenWords (b.length - relL4) from rfl]
  omega

/-! ## Replaced words -/

/-- `F` of the new packet is `F` of the old one with `d` added, up to full turns. -/
def Adds (F : Bytes → ℕ) (b b' : Bytes) (d : ℕ) : Prop := ∃ k, F b' + 65535 * k = F b + d

theorem Adds.refl (F : Bytes → ℕ) (b : Bytes) : Adds F b b 0 := ⟨0, rfl⟩

theorem Adds.trans {F : Bytes → ℕ} {a b c : Bytes} {d e : ℕ} (h : Adds F a b d)
    (h' : Adds F b c e) : Adds F a c (d + e) := by
  obtain ⟨k, hk⟩ := h
  obtain ⟨l, hl⟩ := h'
  exact ⟨k + l, by omega⟩

/-- A sum that is not zero is finished the same way. -/
theorem Adds.finish {F : Bytes → ℕ} {b b' : Bytes} {d : ℕ} (h : Adds F b b' d) (hne : F b' ≠ 0) :
    checksum16Finish (F b + d) = checksum16Finish (F b') := by
  obtain ⟨k, hk⟩ := h
  apply checksum16Finish_congr
  rw [← hk, foldAll_add_turn hne]

theorem sum_compl16 (ws : List UInt16) :
    (ws.map compl16).sum + (ws.map UInt16.toNat).sum = 65535 * ws.length := by
  induction ws with
  | nil => rfl
  | cons w ws ih =>
    have hw := compl16_add w
    simp only [List.map_cons, List.sum_cons, List.length_cons]
    omega

/-- What an update adds is the difference, up to full turns. -/
theorem wordsDelta_add (old new : List UInt16) :
    wordsDelta old new + (old.map UInt16.toNat).sum
      = (new.map UInt16.toNat).sum + 65535 * old.length := by
  have := sum_compl16 old
  rw [wordsDelta]
  omega

theorem ofFn_byteAt {b : Bytes} {i n : ℕ} (h : i + n ≤ b.length) :
    List.ofFn (fun k : Fin n => byteAt b (i + k)) = sub b i n := by
  apply ext
  · rw [List.length_ofFn, length_sub h]
  · intro j hj
    rw [List.length_ofFn] at hj
    rw [byteAt_sub b i hj, byteAt, List.getD_eq_getElem _ _ (by rwa [List.length_ofFn]),
      List.getElem_ofFn]

theorem sum_ipv4Words (ip : Ipv4Addr) :
    ((ipv4Words ip).map UInt16.toNat).sum = wordSum (List.ofFn ip) := by
  have hlist : List.ofFn ip = [ip 0, ip 1, ip 2, ip 3] := by simp [List.ofFn_succ]
  rw [hlist]
  simp only [ipv4Words, List.map_cons, List.map_nil, List.sum_cons, List.sum_nil, wordSum_cons_cons,
    wordSum_nil]

theorem sum_ipv6Words (ip : Ipv6Addr) :
    ((ipv6WordsFromOctets ip).map UInt16.toNat).sum = wordSum (List.ofFn ip) := by
  have hlist : List.ofFn ip = [ip 0, ip 1, ip 2, ip 3, ip 4, ip 5, ip 6, ip 7, ip 8, ip 9, ip 10,
      ip 11, ip 12, ip 13, ip 14, ip 15] := by simp [List.ofFn_succ]
  rw [hlist]
  simp only [ipv6WordsFromOctets, List.map_cons, List.map_nil, List.sum_cons, List.sum_nil,
    wordSum_cons_cons, wordSum_nil]

end Xpf.Frames
