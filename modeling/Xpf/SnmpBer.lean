/-
The BER codec of the SNMP agent: `pkg/snmp/agent_ber.go`.

A value travels as tag, length and contents, one inside the other: a PDU holds three
INTEGERs and the variable bindings, each of which holds an OBJECT IDENTIFIER and a value.
Lengths and integers take as many octets as they need, and the arcs of an identifier as
many groups of seven bits.

Lengths and arcs are natural numbers and integers here (no value of theirs that the code
computes with leaves 64 bits); the three integer fields are `Int64`, since the decoder
wraps when it reads more than eight octets. A nil slice is the empty list.
-/
import Xpf.GoStrings
import Xpf.Positional
import Mathlib.Tactic

set_option autoImplicit false

namespace Xpf.SnmpBer

open GoStrings Loop Positional

def tagInteger : UInt8 := 0x02
def tagOctetString : UInt8 := 0x04
def tagObjectIdentifier : UInt8 := 0x06
def tagSequence : UInt8 := 0x30
def tagNoSuchObject : UInt8 := 0x80
def tagNoSuchInstance : UInt8 := 0x81
def tagEndOfMibView : UInt8 := 0x82

/-- The upper bound RFC 2578 puts on a sub-identifier. -/
def maxOIDSubIdentifier : ℕ := 4294967295

/-- An object identifier: `[]int`. -/
abbrev Oid := List ℤ

/-- `varbind`. -/
structure Varbind where
  oid : Oid
  tag : UInt8
  value : Bytes
deriving DecidableEq, Repr

/-! ## Encoding -/

/-- The loop that writes the octets of a positive number. -/
def octets (v : ℕ) : Bytes := (bigEndian 8 v).map UInt8.ofNat

/-- `berEncodeLength`. -/
def berEncodeLength (length : ℕ) : Bytes :=
  if length < 0x80 then [UInt8.ofNat length]
  else
    let lenBytes := octets length
    UInt8.ofNat (0x80 ||| lenBytes.length) :: lenBytes

/-- `berEncodeTLV`. -/
def berEncodeTLV (tag : UInt8) (value : Bytes) : Bytes := [tag] ++ berEncodeLength value.length ++ value

/-- `len(bytes) > 0 && bytes[0]&0x80 != 0`. -/
def highBit : Bytes → Bool
  | [] => false
  | b :: _ => b &&& 0x80 ≠ 0

/-- One round of the loop for negative numbers. -/
def negativeStep (s : ℤ × Bytes) : (ℤ × Bytes) ⊕ Bytes :=
  if s.1 < -1 then .inl (s.1.shiftRight 8, UInt8.ofInt s.1 :: s.2) else .inr s.2

/-- The octets of a negative number, none for `-1`. -/
def negativeOctets (v : ℤ) : Bytes := run negativeStep (·.2) (·.1.natAbs) (v, [])

/-- `berEncodeIntegerValue`. -/
def berEncodeIntegerValue (val : Int64) : Bytes :=
  if val = 0 then [0]
  else if 0 < val then
    let bs := octets val.toInt.toNat
    -- a positive number must not look negative
    if highBit bs then 0 :: bs else bs
  else
    let bs := negativeOctets val.toInt
    if highBit bs then bs else 0xff :: bs

/-- `berEncodeIntegerTLV`. -/
def berEncodeIntegerTLV (val : Int64) : Bytes := berEncodeTLV tagInteger (berEncodeIntegerValue val)

/-- The continuation bit on all octets but the last. -/
def continued : Bytes → Bytes
  | [] => []
  | [b] => [b]
  | b :: c :: bs => (b ||| 0x80) :: continued (c :: bs)

/-- `berEncodeSubID`. -/
def berEncodeSubID (val : UInt32) : Bytes :=
  if val < 0x80 then [UInt8.ofNat val.toNat] else continued ((bigEndian 7 val.toNat).map UInt8.ofNat)

/-- The loop of `berEncodeOID` over the arcs behind the first two. -/
def berEncodeArcs (encoded : Bytes) : Oid → Option Bytes
  | [] => some encoded
  | arc :: arcs =>
    if arc < 0 ∨ arc.toNat > maxOIDSubIdentifier then none
    else berEncodeArcs (encoded ++ berEncodeSubID (UInt32.ofNat arc.toNat)) arcs

/-- `berEncodeOID`: nothing for an identifier that cannot be encoded. -/
def berEncodeOID : Oid → Bytes
  | first :: second :: arcs => (berEncodeArcs [UInt8.ofInt (first * 40 + second)] arcs).getD []
  | _ => []

/-- `encodeVarbind`: an exception carries no value. -/
def encodeVarbind (dst : Bytes) (vb : Varbind) : Bytes :=
  let body := berEncodeTLV tagObjectIdentifier (berEncodeOID vb.oid)
  let body :=
    if vb.tag = tagNoSuchObject ∨ vb.tag = tagNoSuchInstance ∨ vb.tag = tagEndOfMibView then
      body ++ berEncodeTLV vb.tag []
    else body ++ berEncodeTLV vb.tag vb.value
  dst ++ berEncodeTLV tagSequence body

/-- `encodeVarbindList`. -/
def encodeVarbindList (vbs : List Varbind) : Bytes := berEncodeTLV tagSequence (vbs.foldl encodeVarbind [])

/-- `encodePDU`. -/
def encodePDU (tag : UInt8) (reqID errStatus errIndex : Int64) (vbList : Bytes) : Bytes :=
  let pduBody := berEncodeIntegerTLV reqID
  let pduBody := pduBody ++ berEncodeIntegerTLV errStatus
  let pduBody := pduBody ++ berEncodeIntegerTLV errIndex
  let pduBody := pduBody ++ vbList
  berEncodeTLV tag pduBody

/-! ## Decoding -/

/-- `%02x`. -/
def hexByte (b : UInt8) : String :=
  String.ofList [Nat.digitChar (b.toNat / 16), Nat.digitChar (b.toNat % 16)]

/-- `berDecodeLength`: the length, and how many octets hold it. -/
def berDecodeLength : Bytes → Except String (ℕ × ℕ)
  | [] => .error "ber: empty length"
  | b :: data =>
    if b < 0x80 then .ok (b.toNat, 1)
    else
      let numBytes := (b &&& 0x7f).toNat
      if numBytes = 0 ∨ 4 < numBytes then
        .error s!"ber: unsupported length encoding ({numBytes} bytes)"
      else if data.length + 1 < 1 + numBytes then .error "ber: length bytes truncated"
      else .ok ((data.take numBytes).foldl (fun length b => length <<< 8 ||| b.toNat) 0, 1 + numBytes)

/-- `berDecodeHeader`: the tag and the contents. -/
def berDecodeHeader : Bytes → Except String (UInt8 × Bytes)
  | tag :: b :: bs => do
    let (length, lenBytes) ← berDecodeLength (b :: bs)
    let headerLen := 1 + lenBytes
    let total := (tag :: b :: bs).length
    if headerLen + length > total then
      .error s!"ber: value truncated (need {headerLen + length}, have {total})"
    else .ok (tag, ((tag :: b :: bs).drop headerLen).take length)
  | _ => .error "ber: data too short"

/-- `berDecodeInteger`: the value and the bytes behind it. -/
def berDecodeInteger : Bytes → Except String (Int64 × Bytes)
  | tag :: b :: bs =>
    if tag ≠ tagInteger then .error ("ber: expected INTEGER (0x02), got 0x" ++ hexByte tag)
    else do
      let (length, lenBytes) ← berDecodeLength (b :: bs)
      let headerLen := 1 + lenBytes
      if headerLen + length > (tag :: b :: bs).length then .error "ber: integer value truncated"
      else
        let valBytes := ((tag :: b :: bs).drop headerLen).take length
        let start : Int64 := if highBit valBytes then -1 else 0
        .ok (valBytes.foldl (fun val b => val <<< 8 ||| Int64.ofNat b.toNat) start,
          (tag :: b :: bs).drop (headerLen + length))
  | _ => .error "ber: integer too short"

/-- The inner loop of `berDecodeOID`: one sub-identifier and the bytes behind it. -/
def berDecodeSubID (val : ℕ) : Bytes → Except String (ℕ × Bytes)
  | [] => .error "ber: OID sub-identifier truncated"
  | b :: data =>
    -- the bound stands in front of the shift
    if val > maxOIDSubIdentifier >>> 7 then
      .error s!"ber: OID sub-identifier exceeds the RFC 2578 maximum ({maxOIDSubIdentifier})"
    else
      let val := val <<< 7 ||| (b &&& 0x7f).toNat
      if b &&& 0x80 = 0 then .ok (val, data) else berDecodeSubID val data

/-- One round of the outer loop of `berDecodeOID`. -/
def decodeOIDStep (s : Bytes × Oid) : (Bytes × Oid) ⊕ Except String Oid :=
  if s.1 = [] then .inr (.ok s.2)
  else
    match berDecodeSubID 0 s.1 with
    | .error e => .inr (.error e)
    | .ok (val, data) => .inl (data, s.2 ++ [(val : ℤ)])

/-- `berDecodeOID`. -/
def berDecodeOID : Bytes → Except String Oid
  | [] => .error "ber: empty OID"
  | b :: data =>
    run decodeOIDStep (fun s => .ok s.2) (·.1.length) (data, [((b.toNat / 40 : ℕ) : ℤ), ((b.toNat % 40 : ℕ) : ℤ)])

/-- `berEncodedLen`: `-1` for what is no TLV. -/
def berEncodedLen : Bytes → ℤ
  | _ :: b :: bs =>
    match berDecodeLength (b :: bs) with
    | .error _ => -1
    | .ok (length, lenBytes) => ((1 + lenBytes + length : ℕ) : ℤ)
  | _ => -1

/-- The identifier in the body of one variable binding. -/
def decodeVarbindOID : Bytes → Except String Oid
  | tag :: b :: bs =>
    if tag ≠ tagObjectIdentifier then
      .error ("varbind: first element is tag 0x" ++ hexByte tag ++ ", not an OBJECT IDENTIFIER (0x"
        ++ hexByte tagObjectIdentifier ++ ")")
    else
      match berDecodeLength (b :: bs) with
      | .error e => .error ("varbind: OID length: " ++ e)
      | .ok (oidLen, oidLenBytes) =>
        let oidHeaderLen := 1 + oidLenBytes
        let total := (tag :: b :: bs).length
        if oidHeaderLen + oidLen > total then
          .error s!"varbind: OID value truncated (need {oidHeaderLen + oidLen}, have {total})"
        else (berDecodeOID (((tag :: b :: bs).drop oidHeaderLen).take oidLen)).mapError ("varbind: OID: " ++ ·)
  | vbBody => .error s!"varbind: body too short ({vbBody.length} bytes)"

/-- One round of the loop of `decodePDUFields` over the variable bindings. -/
def decodeVarbindStep (s : Bytes × List Oid) : (Bytes × List Oid) ⊕ Except String (List Oid) :=
  if s.1 = [] then .inr (.ok s.2)
  else
    match berDecodeHeader s.1 with
    | .error _ => .inr (.error "varbind: not a SEQUENCE")
    | .ok (tag, vbBody) =>
      if tag ≠ tagSequence then .inr (.error "varbind: not a SEQUENCE")
      else
        let vbTotalLen := berEncodedLen s.1
        if vbTotalLen ≤ 0 ∨ vbTotalLen > s.1.length then
          .inr (.error s!"varbind: unreadable length (encoded len {vbTotalLen}, {s.1.length} bytes remain)")
        else
          match decodeVarbindOID vbBody with
          | .error e => .inr (.error e)
          | .ok oid => .inl (s.1.drop vbTotalLen.toNat, s.2 ++ [oid])

/-- The loop of `decodePDUFields`. -/
def decodeVarbinds (remaining : Bytes) : Except String (List Oid) :=
  run decodeVarbindStep (fun s => .ok s.2) (·.1.length) (remaining, [])

/-- `decodePDUFields`: request-id, error-status or non-repeaters, error-index or
max-repetitions, and the identifiers of the variable bindings. -/
def decodePDUFields (data : Bytes) : Except String (Int64 × Int64 × Int64 × List Oid) := do
  let (requestID, rest) ← (berDecodeInteger data).mapError ("request-id: " ++ ·)
  let (field2, rest) ← (berDecodeInteger rest).mapError ("field2: " ++ ·)
  let (field3, rest) ← (berDecodeInteger rest).mapError ("field3: " ++ ·)
  if rest = [] then .ok (requestID, field2, field3, [])
  else
    match berDecodeHeader rest with
    | .error _ => .error "varbind list: not a SEQUENCE"
    | .ok (tag, vbListBody) =>
      if tag ≠ tagSequence then .error "varbind list: not a SEQUENCE"
      else do
        let oids ← decodeVarbinds vbListBody
        .ok (requestID, field2, field3, oids)

/-! ## Lengths -/

/-- The number that octets spell. -/
def unsigned (bs : Bytes) : ℕ := valueFrom (2 ^ 8) 0 (bs.map UInt8.toNat)

theorem unsigned_cons (b : UInt8) (bs : Bytes) : unsigned (b :: bs) = b.toNat * 256 ^ bs.length + unsigned bs := by
  rw [unsigned, List.map_cons, valueFrom_cons, valueFrom_eq, List.length_map, unsigned]
  ring

theorem unsigned_concat (bs : Bytes) (b : UInt8) : unsigned (bs ++ [b]) = unsigned bs * 256 + b.toNat := by
  rw [unsigned, List.map_append, valueFrom_append]
  rfl

theorem foldl_octets (bs : Bytes) : bs.foldl (fun acc b => acc <<< 8 ||| b.toNat) 0 = unsigned bs := by
  rw [unsigned, valueFrom, List.foldl_map]
  congr 1
  funext acc b
  exact shiftLeft_or b.toNat_lt

theorem map_toNat_octets (v : ℕ) : (octets v).map UInt8.toNat = bigEndian 8 v := by
  rw [octets, List.map_map]
  calc (bigEndian 8 v).map (UInt8.toNat ∘ UInt8.ofNat)
      = (bigEndian 8 v).map id :=
        List.map_congr_left fun d hd => UInt8.toNat_ofNat_of_lt' (bigEndian_lt (by decide) hd)
    _ = bigEndian 8 v := List.map_id _

theorem unsigned_octets (v : ℕ) : unsigned (octets v) = v := by
  rw [unsigned, map_toNat_octets, valueFrom_bigEndian (by decide)]

theorem length_octets_le {v : ℕ} (h : v < 2 ^ 32) : (octets v).length ≤ 4 := by
  rw [octets, List.length_map]
  exact length_bigEndian_le (by decide) h

theorem octets_ne_nil {v : ℕ} (h : v ≠ 0) : octets v ≠ [] := by
  rw [octets, ne_eq, List.map_eq_nil_iff]
  exact bigEndian_ne_nil (by decide) h

/-- **A length reads back**, with whatever stands behind it. -/
theorem berDecodeLength_encode {n : ℕ} (h : n < 2 ^ 32) (rest : Bytes) :
    berDecodeLength (berEncodeLength n ++ rest) = .ok (n, (berEncodeLength n).length) := by
  rw [berEncodeLength]
  split_ifs with hshort
  · have hn : (UInt8.ofNat n).toNat = n := UInt8.toNat_ofNat_of_lt' (Nat.lt_trans hshort (by decide))
    have hlt : UInt8.ofNat n < 0x80 := UInt8.lt_iff_toNat_lt.mpr (by rw [hn]; exact hshort)
    rw [List.singleton_append, berDecodeLength, if_pos hlt, hn]
    rfl
  · -- the first octet counts the others: one to four
    have hle : (octets n).length ≤ 4 := length_octets_le h
    have hpos : 0 < (octets n).length := List.length_pos_of_ne_nil (octets_ne_nil (by omega))
    have hfirst : ∀ k : ℕ, 0 < k → k ≤ 4 → ¬ UInt8.ofNat (0x80 ||| k) < 0x80
        ∧ (UInt8.ofNat (0x80 ||| k) &&& 0x7f).toNat = k := by
      intro k hk0 hk4
      interval_cases k <;> decide
    obtain ⟨hlong, hcount⟩ := hfirst _ hpos hle
    dsimp only
    rw [List.cons_append, berDecodeLength, if_neg hlong]
    dsimp only
    rw [hcount, if_neg (by omega), if_neg (by rw [List.length_append]; omega), List.take_left', foldl_octets,
      unsigned_octets, List.length_cons, Nat.add_comm]
    rfl

theorem berEncodeLength_ne_nil (n : ℕ) : berEncodeLength n ≠ [] := by
  rw [berEncodeLength]
  split_ifs
  · exact List.cons_ne_nil _ _
  · exact List.cons_ne_nil _ _

/-- What a reader of a TLV finds: the length of its contents, and the contents behind
the header. -/
theorem berEncodeTLV_parts (tag : UInt8) (value rest : Bytes) :
    ∃ b bs, berEncodeTLV tag value ++ rest = tag :: b :: bs
      ∧ b :: bs = berEncodeLength value.length ++ (value ++ rest)
      ∧ (tag :: b :: bs).length = 1 + (berEncodeLength value.length).length + value.length + rest.length
      ∧ (tag :: b :: bs).drop (1 + (berEncodeLength value.length).length) = value ++ rest := by
  have hwhole : berEncodeTLV tag value ++ rest = tag :: (berEncodeLength value.length ++ (value ++ rest)) := by
    rw [berEncodeTLV, List.append_assoc, List.append_assoc]
    rfl
  obtain ⟨b, bs, hbs⟩ : ∃ b bs, b :: bs = berEncodeLength value.length ++ (value ++ rest) := by
    cases hlen : berEncodeLength value.length with
    | nil => exact absurd hlen (berEncodeLength_ne_nil _)
    | cons b bs => exact ⟨b, bs ++ (value ++ rest), rfl⟩
  refine ⟨b, bs, by rw [hwhole, hbs], hbs, ?_, ?_⟩
  · rw [List.length_cons, hbs]
    simp only [List.length_append]
    omega
  · rw [hbs, Nat.add_comm, List.drop_succ_cons, List.drop_left']
    rfl

/-- **A TLV reads back**, with whatever stands behind it. -/
theorem berDecodeHeader_encode (tag : UInt8) (value rest : Bytes) (h : value.length < 2 ^ 32) :
    berDecodeHeader (berEncodeTLV tag value ++ rest) = .ok (tag, value) := by
  obtain ⟨b, bs, hwhole, hbs, hlen, hdrop⟩ := berEncodeTLV_parts tag value rest
  rw [hwhole, berDecodeHeader, hlen, hbs, berDecodeLength_encode h]
  dsimp only [bind, Except.bind]
  rw [if_neg (by omega), ← hbs, hdrop, List.take_left']
  rfl

theorem berEncodedLen_encode (tag : UInt8) {value : Bytes} (h : value.length < 2 ^ 32) (rest : Bytes) :
    berEncodedLen (berEncodeTLV tag value ++ rest) = (berEncodeTLV tag value).length := by
  obtain ⟨b, bs, hwhole, hbs, -, -⟩ := berEncodeTLV_parts tag value rest
  rw [hwhole, berEncodedLen, hbs, berDecodeLength_encode h]
  dsimp only
  rw [berEncodeTLV, List.length_append, List.length_append, List.length_singleton]

/-! ## Integers -/

/-- The number that octets spell in two's complement. -/
def signed (bs : Bytes) : ℤ := (if highBit bs then -1 else 0) * 256 ^ bs.length + unsigned bs

theorem signed_of_high {bs : Bytes} (h : highBit bs = true) : signed bs = unsigned bs - 256 ^ bs.length := by
  rw [signed, if_pos h]
  ring

theorem signed_of_low {bs : Bytes} (h : highBit bs = false) : signed bs = unsigned bs := by
  rw [signed, if_neg (by rw [h]; decide)]
  ring

theorem shiftLeft_or_ofInt (x : ℤ) (b : UInt8) :
    Int64.ofInt x <<< 8 ||| Int64.ofNat b.toNat = Int64.ofInt (x * 256 + b.toNat) := by
  have hb : b.toNat < 2 ^ 8 := b.toNat_lt
  have hmul : Int64.ofInt (x * 256 + b.toNat) = Int64.ofInt x * 256 + Int64.ofNat b.toNat := by
    rw [Int64.ofInt_add, Int64.ofInt_mul]
    rfl
  rw [hmul]
  generalize Int64.ofInt x = y
  generalize b.toNat = n at hb
  -- the low eight bits of the shifted word are free
  have hshift : (y <<< 8).toBitVec.toNat = y.toBitVec.toNat % 2 ^ 56 * 2 ^ 8 := by
    have hword : (y <<< 8).toBitVec = y.toBitVec <<< 8 := rfl
    rw [hword, BitVec.toNat_shiftLeft, Nat.shiftLeft_eq]
    omega
  have hmul : (y * 256).toBitVec.toNat = y.toBitVec.toNat % 2 ^ 56 * 2 ^ 8 := by
    rw [Int64.toBitVec_mul, BitVec.toNat_mul]
    show y.toBitVec.toNat * 256 % 2 ^ 64 = _
    omega
  have hn : (Int64.ofNat n).toBitVec.toNat = n := by
    show (BitVec.ofNat 64 n).toNat = n
    rw [BitVec.toNat_ofNat]
    omega
  apply Int64.toBitVec_inj.mp
  apply BitVec.eq_of_toNat_eq
  rw [Int64.toBitVec_or, BitVec.toNat_or, Int64.toBitVec_add, BitVec.toNat_add, hshift, hmul, hn,
    ← Nat.shiftLeft_eq, shiftLeft_or hb, Nat.shiftLeft_eq]
  omega

/-- The accumulator of the decoder is a two's-complement number. -/
theorem foldl_ofInt (x : ℤ) (bs : Bytes) :
    bs.foldl (fun (val : Int64) b => val <<< 8 ||| Int64.ofNat b.toNat) (Int64.ofInt x)
      = Int64.ofInt (x * 256 ^ bs.length + unsigned bs) := by
  induction bs generalizing x with
  | nil => simp [unsigned, valueFrom]
  | cons b bs ih =>
    rw [List.foldl_cons, shiftLeft_or_ofInt, ih, unsigned_cons, List.length_cons]
    congr 1
    push_cast
    ring

theorem shiftRight_eight (v : ℤ) : v.shiftRight 8 = v / 256 := Int.shiftRight_eq_div_pow v 8

theorem negativeStep_dec (s s' : ℤ × Bytes) (h : negativeStep s = .inl s') : s'.1.natAbs < s.1.natAbs := by
  rw [negativeStep] at h
  split_ifs at h with hlt
  obtain rfl := Sum.inl.inj h
  dsimp only
  rw [shiftRight_eight]
  omega

/-- The octets of a negative number are those of what it lacks to the next power. -/
theorem unsigned_negativeOctets {v : ℤ} (hv : v < 0) :
    (unsigned (negativeOctets v) : ℤ) = v + 256 ^ (negativeOctets v).length := by
  -- the loop puts its octets in front of those it has
  have hrun : ∀ s : ℤ × Bytes, s.1 < 0 → ∃ bs, run negativeStep (·.2) (·.1.natAbs) s = bs ++ s.2
      ∧ (unsigned bs : ℤ) = s.1 + 256 ^ bs.length := by
    refine run_induct (motive := fun s b => s.1 < 0 → ∃ bs, b = bs ++ s.2
      ∧ (unsigned bs : ℤ) = s.1 + 256 ^ bs.length) negativeStep_dec ?_ ?_
    · intro s b h hneg
      rw [negativeStep] at h
      split_ifs at h with hlt
      obtain rfl := Sum.inr.inj h
      have hone : s.1 = -1 := by omega
      exact ⟨[], rfl, by rw [hone]; rfl⟩
    · intro s s' b h ih hneg
      rw [negativeStep] at h
      split_ifs at h with hlt
      obtain rfl := Sum.inl.inj h
      dsimp only at ih
      rw [shiftRight_eight] at ih
      obtain ⟨bs, rfl, hvalue⟩ := ih (by omega)
      have hlow : ((UInt8.ofInt s.1).toNat : ℤ) = s.1 % 256 := by
        rw [UInt8.ofInt, UInt8.toNat_ofNat']
        omega
      refine ⟨bs ++ [UInt8.ofInt s.1], by rw [List.append_assoc, List.singleton_append], ?_⟩
      rw [unsigned_concat, List.length_append, List.length_singleton, pow_succ]
      push_cast
      rw [hvalue, hlow]
      omega
  obtain ⟨bs, hbs, hvalue⟩ := hrun (v, []) hv
  rw [negativeOctets, hbs, List.append_nil]
  exact hvalue

/-- **What the encoder writes spells the number.** -/
theorem signed_berEncodeIntegerValue (val : Int64) : signed (berEncodeIntegerValue val) = val.toInt := by
  rw [berEncodeIntegerValue]
  by_cases hzero : val = 0
  · rw [if_pos hzero, hzero]
    rfl
  rw [if_neg hzero]
  by_cases hpos : 0 < val
  · rw [if_pos hpos]
    have hval : 0 < val.toInt := Int64.lt_iff_toInt_lt.mp hpos
    dsimp only
    cases hhigh : highBit (octets val.toInt.toNat) with
    | true =>
      rw [if_pos rfl, signed_of_low rfl, unsigned_cons, unsigned_octets, UInt8.toNat_zero, Nat.zero_mul, Nat.zero_add]
      omega
    | false =>
      rw [if_neg (by decide), signed_of_low hhigh, unsigned_octets]
      omega
  · rw [if_neg hpos]
    have hval : val.toInt < 0 := by
      have hne : val.toInt ≠ 0 := fun h => hzero (Int64.toInt_inj.mp h)
      have hle : ¬ 0 < val.toInt := fun h => hpos (Int64.lt_iff_toInt_lt.mpr h)
      omega
    have hoctets := unsigned_negativeOctets hval
    dsimp only
    cases hhigh : highBit (negativeOctets val.toInt) with
    | true =>
      rw [if_pos rfl, signed_of_high hhigh, hoctets]
      ring
    | false =>
      rw [if_neg (by decide), signed_of_high rfl, unsigned_cons, List.length_cons, pow_succ]
      push_cast
      rw [hoctets]
      ring

/-- **An integer reads back**, with what stands behind it. -/
theorem berDecodeInteger_encode {val : Int64} (h : (berEncodeIntegerValue val).length < 2 ^ 32) (rest : Bytes) :
    berDecodeInteger (berEncodeIntegerTLV val ++ rest) = .ok (val, rest) := by
  obtain ⟨b, bs, hwhole, hbs, hlen, hdrop⟩ := berEncodeTLV_parts tagInteger (berEncodeIntegerValue val) rest
  rw [berEncodeIntegerTLV, hwhole, berDecodeInteger, if_neg (by decide), hlen, hbs, berDecodeLength_encode h]
  dsimp only [bind, Except.bind]
  have hbehind : (tagInteger :: b :: bs).drop (1 + (berEncodeLength (berEncodeIntegerValue val).length).length
      + (berEncodeIntegerValue val).length) = rest := by
    rw [← List.drop_drop, hdrop, List.drop_left' rfl]
  rw [if_neg (by omega), ← hbs, hdrop, List.take_left', hbehind]
  · have hstart : (if highBit (berEncodeIntegerValue val) then -1 else 0 : Int64)
        = Int64.ofInt (if highBit (berEncodeIntegerValue val) then -1 else 0) := by
      split_ifs <;> rfl
    rw [hstart, foldl_ofInt, ← signed, signed_berEncodeIntegerValue, Int64.ofInt_toInt]
  · rfl

/-! ## Identifiers -/

theorem toNat_and_0x7f (b : UInt8) : (b &&& 0x7f).toNat = b.toNat % 128 := by
  rw [UInt8.toNat_and]
  exact Nat.and_two_pow_sub_one_eq_mod b.toNat 7

theorem and_0x80_eq_zero {b : UInt8} (h : b.toNat < 128) : b &&& 0x80 = 0 := by
  apply UInt8.toNat_inj.mp
  rw [UInt8.toNat_and]
  show b.toNat &&& 2 ^ 7 = 0
  apply Nat.eq_of_testBit_eq
  intro i
  rw [Nat.testBit_and, Nat.testBit_two_pow, Nat.zero_testBit]
  by_cases hi : 7 = i
  · rw [← hi, Nat.testBit_lt_two_pow h, Bool.false_and]
  · rw [decide_eq_false hi, Bool.and_false]

theorem or_0x80_toNat {b : UInt8} (h : b.toNat < 128) : (b ||| 0x80).toNat = b.toNat + 128 := by
  rw [UInt8.toNat_or, Nat.or_comm]
  show 1 <<< 7 ||| b.toNat = _
  rw [shiftLeft_or (d := b.toNat) (by exact h)]
  omega

theorem or_0x80_ne_zero (b : UInt8) : (b ||| 0x80) &&& 0x80 ≠ 0 := by
  intro h
  have hbit := congrArg (fun c : UInt8 => c.toBitVec.getLsbD 7) h
  simp at hbit

/-- The octets of a sub-identifier read back behind what has been read, as long as the
whole stays within the bound. -/
theorem berDecodeSubID_continued (start : ℕ) (ds : List ℕ) (hne : ds ≠ []) (hlt : ∀ d ∈ ds, d < 2 ^ 7)
    (hmax : valueFrom (2 ^ 7) start ds ≤ maxOIDSubIdentifier) (rest : Bytes) :
    berDecodeSubID start (continued (ds.map UInt8.ofNat) ++ rest) = .ok (valueFrom (2 ^ 7) start ds, rest) := by
  induction ds generalizing start with
  | nil => exact absurd rfl hne
  | cons d ds ih =>
    have hd : d < 2 ^ 7 := hlt d List.mem_cons_self
    have hoctet : (UInt8.ofNat d).toNat = d := UInt8.toNat_ofNat_of_lt' (Nat.lt_trans hd (by decide))
    have hbound : ¬ start > maxOIDSubIdentifier >>> 7 := by
      rw [valueFrom_cons, valueFrom_eq] at hmax
      have hpow : 0 < (2 ^ 7) ^ ds.length := Nat.pow_pos (by decide)
      have hle : start * 2 ^ 7 + d ≤ (start * 2 ^ 7 + d) * (2 ^ 7) ^ ds.length := Nat.le_mul_of_pos_right _ hpow
      rw [Nat.shiftRight_eq_div_pow]
      omega
    have hread : start <<< 7 ||| d = start * 2 ^ 7 + d := shiftLeft_or hd
    cases ds with
    | nil =>
      -- the last octet has no continuation bit
      have hlow : d % 128 = d := Nat.mod_eq_of_lt hd
      rw [List.map_cons, List.map_nil, continued, List.singleton_append, berDecodeSubID, if_neg hbound,
        toNat_and_0x7f, hoctet, hlow, hread, if_pos (and_0x80_eq_zero (by rw [hoctet]; exact hd))]
      rfl
    | cons e es =>
      have hhigh : (UInt8.ofNat d ||| 0x80).toNat = d + 128 := by
        rw [or_0x80_toNat (by rw [hoctet]; exact hd), hoctet]
      have hlow : (d + 128) % 128 = d := by omega
      rw [List.map_cons, List.map_cons, continued, List.cons_append, berDecodeSubID, if_neg hbound,
        toNat_and_0x7f, hhigh, hlow, hread, if_neg (or_0x80_ne_zero _)]
      exact ih _ (List.cons_ne_nil _ _) (fun c hc => hlt c (List.mem_cons_of_mem _ hc)) hmax

/-- **A sub-identifier reads back**, with what stands behind it. -/
theorem berDecodeSubID_encode (val : UInt32) (rest : Bytes) :
    berDecodeSubID 0 (berEncodeSubID val ++ rest) = .ok (val.toNat, rest) := by
  have hmax : val.toNat ≤ maxOIDSubIdentifier := Nat.le_of_lt_succ val.toNat_lt
  rw [berEncodeSubID]
  split_ifs with hshort
  · have hval : val.toNat < 2 ^ 7 := UInt32.lt_iff_toNat_lt.mp hshort
    have hone : valueFrom (2 ^ 7) 0 [val.toNat] = val.toNat := by simp [valueFrom]
    have hread := berDecodeSubID_continued 0 [val.toNat] (List.cons_ne_nil _ _)
      (fun d hd => by rw [List.mem_singleton.mp hd]; exact hval) (by rw [hone]; exact hmax) rest
    rw [hone] at hread
    exact hread
  · have hpos : val.toNat ≠ 0 := by
      intro h
      apply hshort
      rw [UInt32.lt_iff_toNat_lt, h]
      decide
    have hvalue : valueFrom (2 ^ 7) 0 (bigEndian 7 val.toNat) = val.toNat := valueFrom_bigEndian (by decide) _
    have hread := berDecodeSubID_continued 0 _ (bigEndian_ne_nil (by decide) hpos)
      (fun d hd => bigEndian_lt (by decide) hd) (by rw [hvalue]; exact hmax) rest
    rw [hvalue] at hread
    exact hread

/-- An identifier that fits the format: its first two arcs fit one octet and the decoder
tells them apart, the others are in the range of a sub-identifier. -/
def WellFormed : Oid → Prop
  | first :: second :: arcs => (0 ≤ first ∧ first ≤ 5) ∧ (0 ≤ second ∧ second ≤ 39)
    ∧ ∀ arc ∈ arcs, 0 ≤ arc ∧ arc ≤ maxOIDSubIdentifier
  | _ => False

instance : DecidablePred WellFormed := fun oid =>
  match oid with
  | first :: second :: arcs => inferInstanceAs (Decidable ((0 ≤ first ∧ first ≤ 5) ∧ (0 ≤ second ∧ second ≤ 39)
    ∧ ∀ arc ∈ arcs, 0 ≤ arc ∧ arc ≤ maxOIDSubIdentifier))
  | [_] => .isFalse id
  | [] => .isFalse id

theorem berEncodeArcs_eq (encoded : Bytes) {arcs : Oid} (h : ∀ arc ∈ arcs, 0 ≤ arc ∧ arc ≤ maxOIDSubIdentifier) :
    berEncodeArcs encoded arcs
      = some (encoded ++ arcs.flatMap fun arc => berEncodeSubID (UInt32.ofNat arc.toNat)) := by
  induction arcs generalizing encoded with
  | nil => rw [berEncodeArcs, List.flatMap_nil, List.append_nil]
  | cons arc arcs ih =>
    obtain ⟨hnonneg, hmax⟩ := h arc List.mem_cons_self
    rw [berEncodeArcs, if_neg (by omega), ih _ fun a ha => h a (List.mem_cons_of_mem _ ha), List.flatMap_cons,
      List.append_assoc]

theorem berDecodeSubID_length {val v : ℕ} {data rest : Bytes} (h : berDecodeSubID val data = .ok (v, rest)) :
    rest.length < data.length := by
  induction data generalizing val with
  | nil => cases h
  | cons b data ih =>
    rw [berDecodeSubID] at h
    split_ifs at h with hbound hlast
    · obtain ⟨-, rfl⟩ := Prod.mk.inj (Except.ok.inj h)
      exact Nat.lt_succ_self _
    · exact Nat.lt_succ_of_lt (ih h)

theorem decodeOIDStep_dec (s s' : Bytes × Oid) (h : decodeOIDStep s = .inl s') : s'.1.length < s.1.length := by
  rw [decodeOIDStep] at h
  split_ifs at h with hnil
  split at h
  · cases h
  · next v data hread =>
    obtain rfl := Sum.inl.inj h
    exact berDecodeSubID_length hread

theorem decodeArcs_encode {arcs : Oid} (h : ∀ arc ∈ arcs, 0 ≤ arc ∧ arc ≤ maxOIDSubIdentifier) (oid : Oid) :
    run decodeOIDStep (fun s => .ok s.2) (·.1.length)
      (arcs.flatMap (fun arc => berEncodeSubID (UInt32.ofNat arc.toNat)), oid) = .ok (oid ++ arcs) := by
  induction arcs generalizing oid with
  | nil =>
    rw [List.append_nil]
    exact run_inr rfl
  | cons arc arcs ih =>
    obtain ⟨hnonneg, hmax⟩ := h arc List.mem_cons_self
    have hmax' : arc.toNat < 2 ^ 32 := by
      have hval : maxOIDSubIdentifier = 2 ^ 32 - 1 := rfl
      omega
    have hread := berDecodeSubID_encode (UInt32.ofNat arc.toNat)
      (arcs.flatMap fun arc => berEncodeSubID (UInt32.ofNat arc.toNat))
    have harc : ((UInt32.ofNat arc.toNat).toNat : ℤ) = arc := by
      rw [UInt32.toNat_ofNat_of_lt' hmax']
      omega
    have hstep : decodeOIDStep ((arc :: arcs).flatMap (fun arc => berEncodeSubID (UInt32.ofNat arc.toNat)), oid)
        = .inl (arcs.flatMap (fun arc => berEncodeSubID (UInt32.ofNat arc.toNat)), oid ++ [arc]) := by
      rw [decodeOIDStep, List.flatMap_cons, if_neg, hread]
      · dsimp only
        rw [harc]
      · intro hnil
        dsimp only at hnil
        rw [hnil] at hread
        cases hread
    rw [run_inl decodeOIDStep_dec hstep, ih fun a ha => h a (List.mem_cons_of_mem _ ha), List.append_assoc,
      List.singleton_append]

/-- **An identifier reads back.** -/
theorem berDecodeOID_encode {oid : Oid} (h : WellFormed oid) : berDecodeOID (berEncodeOID oid) = .ok oid := by
  obtain ⟨first, second, arcs, rfl⟩ : ∃ first second arcs, oid = first :: second :: arcs := by
    match oid, h with
    | first :: second :: arcs, _ => exact ⟨first, second, arcs, rfl⟩
  obtain ⟨⟨hfirst, hfirst'⟩, ⟨hsecond, hsecond'⟩, harcs⟩ := h
  rw [berEncodeOID, berEncodeArcs_eq _ harcs, Option.getD_some, List.singleton_append, berDecodeOID,
    decodeArcs_encode harcs]
  have hoctet : ((UInt8.ofInt (first * 40 + second)).toNat : ℤ) = first * 40 + second := by
    rw [UInt8.ofInt, UInt8.toNat_ofNat']
    omega
  have hone : (((UInt8.ofInt (first * 40 + second)).toNat / 40 : ℕ) : ℤ) = first := by omega
  have htwo : (((UInt8.ofInt (first * 40 + second)).toNat % 40 : ℕ) : ℤ) = second := by omega
  rw [hone, htwo]
  rfl

/-! ## PDUs -/

/-- The contents of one variable binding. -/
def varbindBody (vb : Varbind) : Bytes :=
  berEncodeTLV tagObjectIdentifier (berEncodeOID vb.oid)
    ++ berEncodeTLV vb.tag
      (if vb.tag = tagNoSuchObject ∨ vb.tag = tagNoSuchInstance ∨ vb.tag = tagEndOfMibView then [] else vb.value)

theorem encodeVarbind_eq (dst : Bytes) (vb : Varbind) :
    encodeVarbind dst vb = dst ++ berEncodeTLV tagSequence (varbindBody vb) := by
  rw [encodeVarbind, varbindBody]
  split_ifs <;> rfl

theorem foldl_encodeVarbind (dst : Bytes) (vbs : List Varbind) :
    vbs.foldl encodeVarbind dst = dst ++ vbs.flatMap fun vb => berEncodeTLV tagSequence (varbindBody vb) := by
  induction vbs generalizing dst with
  | nil => rw [List.foldl_nil, List.flatMap_nil, List.append_nil]
  | cons vb vbs ih => rw [List.foldl_cons, ih, encodeVarbind_eq, List.flatMap_cons, List.append_assoc]

theorem length_berEncodeTLV (tag : UInt8) (value : Bytes) :
    (berEncodeTLV tag value).length = 1 + (berEncodeLength value.length).length + value.length := by
  rw [berEncodeTLV, List.length_append, List.length_append, List.length_singleton]

theorem decodeVarbindOID_body {vb : Varbind} (hoid : WellFormed vb.oid) (h : (varbindBody vb).length < 2 ^ 32) :
    decodeVarbindOID (varbindBody vb) = .ok vb.oid := by
  have hlen : (berEncodeOID vb.oid).length < 2 ^ 32 := by
    rw [varbindBody, List.length_append, length_berEncodeTLV] at h
    omega
  obtain ⟨b, bs, hwhole, hbs, htotal, hdrop⟩ := berEncodeTLV_parts tagObjectIdentifier (berEncodeOID vb.oid)
    (berEncodeTLV vb.tag
      (if vb.tag = tagNoSuchObject ∨ vb.tag = tagNoSuchInstance ∨ vb.tag = tagEndOfMibView then [] else vb.value))
  rw [varbindBody, hwhole, decodeVarbindOID, if_neg (by decide), hbs, berDecodeLength_encode hlen]
  dsimp only
  rw [← hbs, if_neg (by omega), hdrop, List.take_left' rfl, berDecodeOID_encode hoid]
  rfl

theorem decodeVarbindStep_dec (s s' : Bytes × List Oid) (h : decodeVarbindStep s = .inl s') :
    s'.1.length < s.1.length := by
  rw [decodeVarbindStep] at h
  split_ifs at h with hnil
  split at h
  · cases h
  · split_ifs at h with htag
    dsimp only at h
    split_ifs at h with hlen
    split at h
    · cases h
    · obtain rfl := Sum.inl.inj h
      dsimp only
      rw [List.length_drop]
      omega

theorem decodeVarbindStep_encode {vb : Varbind} (hoid : WellFormed vb.oid) (h : (varbindBody vb).length < 2 ^ 32)
    (rest : Bytes) (oids : List Oid) :
    decodeVarbindStep (berEncodeTLV tagSequence (varbindBody vb) ++ rest, oids) = .inl (rest, oids ++ [vb.oid]) := by
  have hpos : 0 < (berEncodeTLV tagSequence (varbindBody vb)).length := by
    rw [length_berEncodeTLV]
    omega
  have hne : berEncodeTLV tagSequence (varbindBody vb) ++ rest ≠ [] :=
    List.append_ne_nil_of_left_ne_nil (List.ne_nil_of_length_pos hpos) _
  rw [decodeVarbindStep, if_neg hne, berDecodeHeader_encode tagSequence _ _ h]
  dsimp only
  rw [if_neg (by decide), berEncodedLen_encode tagSequence h, if_neg, decodeVarbindOID_body hoid h]
  · dsimp only
    rw [Int.toNat_natCast, List.drop_left' rfl]
  · rw [List.length_append]
    omega

theorem decodeVarbinds_encode {vbs : List Varbind} (hoid : ∀ vb ∈ vbs, WellFormed vb.oid)
    (h : ∀ vb ∈ vbs, (varbindBody vb).length < 2 ^ 32) :
    decodeVarbinds (vbs.flatMap fun vb => berEncodeTLV tagSequence (varbindBody vb)) = .ok (vbs.map (·.oid)) := by
  have hrun : ∀ oids, run decodeVarbindStep (fun s => .ok s.2) (·.1.length)
      (vbs.flatMap (fun vb => berEncodeTLV tagSequence (varbindBody vb)), oids) = .ok (oids ++ vbs.map (·.oid)) := by
    induction vbs with
    | nil =>
      intro oids
      rw [List.map_nil, List.append_nil]
      exact run_inr rfl
    | cons vb vbs ih =>
      intro oids
      rw [List.flatMap_cons, run_inl decodeVarbindStep_dec
          (decodeVarbindStep_encode (hoid vb List.mem_cons_self) (h vb List.mem_cons_self) _ oids),
        ih (fun v hv => hoid v (List.mem_cons_of_mem _ hv)) fun v hv => h v (List.mem_cons_of_mem _ hv),
        List.append_assoc, List.map_cons, List.singleton_append]
  exact hrun []

/-- **PDU encoding round trip.** The header of an encoded PDU gives its tag and its body,
and the body gives the three integers and the identifiers of the variable bindings. -/
theorem decodePDUFields_encodePDU (tag : UInt8) (reqID errStatus errIndex : Int64) (vbs : List Varbind)
    (hoid : ∀ vb ∈ vbs, WellFormed vb.oid)
    (hsize : (encodePDU tag reqID errStatus errIndex (encodeVarbindList vbs)).length < 2 ^ 31) :
    ∃ body, berDecodeHeader (encodePDU tag reqID errStatus errIndex (encodeVarbindList vbs)) = .ok (tag, body)
      ∧ decodePDUFields body = .ok (reqID, errStatus, errIndex, vbs.map (·.oid)) := by
  have hlist : encodeVarbindList vbs
      = berEncodeTLV tagSequence (vbs.flatMap fun vb => berEncodeTLV tagSequence (varbindBody vb)) := by
    rw [encodeVarbindList, foldl_encodeVarbind, List.nil_append]
  have hbody : encodePDU tag reqID errStatus errIndex (encodeVarbindList vbs)
      = berEncodeTLV tag (berEncodeIntegerTLV reqID ++ (berEncodeIntegerTLV errStatus
        ++ (berEncodeIntegerTLV errIndex ++ encodeVarbindList vbs))) := by
    simp only [encodePDU, List.append_assoc]
  -- every part is shorter than the whole
  rw [hbody, length_berEncodeTLV] at hsize
  simp only [List.length_append] at hsize
  have hinteger : ∀ val, (berEncodeIntegerValue val).length ≤ (berEncodeIntegerTLV val).length := by
    intro val
    rw [berEncodeIntegerTLV, length_berEncodeTLV]
    omega
  have hlistLen : (vbs.flatMap fun vb => berEncodeTLV tagSequence (varbindBody vb)).length
      ≤ (encodeVarbindList vbs).length := by
    rw [hlist, length_berEncodeTLV]
    omega
  have hvarbind : ∀ vb ∈ vbs, (varbindBody vb).length < 2 ^ 32 := by
    intro vb hvb
    have hsub : (berEncodeTLV tagSequence (varbindBody vb)).Sublist
        (vbs.flatMap fun vb => berEncodeTLV tagSequence (varbindBody vb)) :=
      List.sublist_flatten_of_mem (List.mem_map_of_mem hvb)
    have hle := hsub.length_le
    rw [length_berEncodeTLV] at hle
    omega
  have hreq := hinteger reqID
  have hstatus := hinteger errStatus
  have hindex := hinteger errIndex
  have hwhole := berDecodeHeader_encode tag (berEncodeIntegerTLV reqID
    ++ (berEncodeIntegerTLV errStatus ++ (berEncodeIntegerTLV errIndex ++ encodeVarbindList vbs))) [] (by
      simp only [List.length_append]
      omega)
  rw [List.append_nil, ← hbody] at hwhole
  refine ⟨_, hwhole, ?_⟩
  have hheader := berDecodeHeader_encode tagSequence
    (vbs.flatMap fun vb => berEncodeTLV tagSequence (varbindBody vb)) [] (by omega)
  rw [List.append_nil, ← hlist] at hheader
  have hne : encodeVarbindList vbs ≠ [] := by
    rw [hlist]
    exact List.cons_ne_nil _ _
  rw [decodePDUFields, berDecodeInteger_encode (by omega)]
  dsimp only [Except.mapError, bind, Except.bind]
  rw [berDecodeInteger_encode (by omega)]
  dsimp only
  rw [berDecodeInteger_encode (by omega)]
  dsimp only
  rw [if_neg hne, hheader]
  dsimp only
  rw [if_neg (by decide), decodeVarbinds_encode hoid hvarbind]

theorem decodePDUFields_encodePDU_exception :
    ∃ body, berDecodeHeader (encodePDU 0xa2 (-129) 0 9223372036854775807 (encodeVarbindList
        [⟨[1, 3, 6, 1, 2, 1, 1, 5, 0], tagOctetString, bytes "fw0"⟩, ⟨[5, 39, 4294967295], tagEndOfMibView, [1]⟩]))
      = .ok (0xa2, body)
      ∧ decodePDUFields body
        = .ok (-129, 0, 9223372036854775807, [[1, 3, 6, 1, 2, 1, 1, 5, 0], [5, 39, 4294967295]]) :=
  decodePDUFields_encodePDU 0xa2 (-129) 0 9223372036854775807
    [⟨[1, 3, 6, 1, 2, 1, 1, 5, 0], tagOctetString, bytes "fw0"⟩, ⟨[5, 39, 4294967295], tagEndOfMibView, [1]⟩]
    (by decide) (by decide)

end Xpf.SnmpBer
