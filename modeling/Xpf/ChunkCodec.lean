/-
Chunked full sets on the wire: how the sender splits a set into chunk payloads and what the
receiver reads back from one, for the names of IPsec associations
(`pkg/cluster/sync_ipsec_chunk_16758.go`) and for DHCP leases (`sync_dhcp_chunk_15160.go` with
the lease codec of `sync_protocol.go`).

A chunk payload is a header of twenty bytes and a body. IPsec names are joined by newlines;
leases are length-prefixed records after a count. The splitters of the two differ: names are
cut every 4096, lease records are packed until the next would exceed the frame budget.
-/
import Xpf.ChunkAssembly
import Xpf.LittleEndian

set_option autoImplicit false

namespace Xpf.ChunkSync

open Xpf.LittleEndian (encode decode read)

abbrev Bytes := List UInt8

/-! ## The chunk header -/

/-- The largest chunk count and the largest item count a header may announce. -/
def chunkMaxTotal : ℕ := 2 ^ 20

/-- The frame size above which the receive loop refuses a frame. -/
def maxSyncPayload : ℕ := 16 * 1024 * 1024

structure ChunkHeader where
  generation : UInt64
  index : ℕ
  total : ℕ
  announced : ℕ
  body : Bytes

/-- The envelope of a chunk: generation, index, total and item count before the body. -/
def encodeChunkPayload (body : Bytes) (generation : UInt64) (index total announced : ℕ) : Bytes :=
  encode 8 generation.toNat ++ (encode 4 index ++ (encode 4 total ++ (encode 4 announced ++ body)))

/-- A header that is cut short or contradicts itself is refused. -/
def decodeChunkHeader (payload : Bytes) : Option ChunkHeader :=
  match read 8 payload with
  | none => none
  | some (generation, payload) =>
  match read 4 payload with
  | none => none
  | some (index, payload) =>
  match read 4 payload with
  | none => none
  | some (total, payload) =>
  match read 4 payload with
  | none => none
  | some (announced, body) =>
    if generation = 0 ∨ total = 0 ∨ chunkMaxTotal < total ∨ total ≤ index ∨ announced = 0 ∨ chunkMaxTotal < announced then
      none
    else some ⟨UInt64.ofNat generation, index, total, announced, body⟩

def encodeIPsecSAChunkPayload := encodeChunkPayload

def decodeIPsecSAChunkHeader := decodeChunkHeader

def encodeDHCPLeaseChunkPayload := encodeChunkPayload

def decodeDHCPLeaseChunkHeader := decodeChunkHeader

/-- What a sender announces comes back: an index below its total, and counts within the
bounds. -/
theorem decodeChunkHeader_encode {body : Bytes} {generation : UInt64} {index total announced : ℕ}
    (hgen : generation ≠ 0) (hindex : index < total) (htotal : total ≤ chunkMaxTotal) (hpos : 0 < announced)
    (hannounced : announced ≤ chunkMaxTotal) :
    decodeChunkHeader (encodeChunkPayload body generation index total announced)
      = some ⟨generation, index, total, announced, body⟩ := by
  unfold chunkMaxTotal at htotal hannounced
  have hgen' : generation.toNat ≠ 0 := fun h => hgen (UInt64.toNat_inj.mp (by simpa using h))
  have hno : ¬ (generation.toNat = 0 ∨ total = 0 ∨ chunkMaxTotal < total ∨ total ≤ index ∨ announced = 0
      ∨ chunkMaxTotal < announced) := by
    unfold chunkMaxTotal
    omega
  unfold decodeChunkHeader encodeChunkPayload
  rw [LittleEndian.read_encode_append 8 _ _ generation.toNat_lt]
  simp only
  rw [LittleEndian.read_encode_append 4 index _ (by omega)]
  simp only
  rw [LittleEndian.read_encode_append 4 total _ (by omega)]
  simp only
  rw [LittleEndian.read_encode_append 4 announced _ (by omega)]
  simp only
  rw [if_neg hno, UInt64.ofNat_toNat]

/-- A header that is accepted announces no more than the bound, and its body is the rest of
the payload. -/
theorem decodeChunkHeader_bounds {payload : Bytes} {h : ChunkHeader} (hdecode : decodeChunkHeader payload = some h) :
    h.announced ≤ chunkMaxTotal ∧ h.body.length ≤ payload.length := by
  unfold decodeChunkHeader at hdecode
  split at hdecode
  · simp at hdecode
  next h₁ =>
  split at hdecode
  · simp at hdecode
  next h₂ =>
  split at hdecode
  · simp at hdecode
  next h₃ =>
  split at hdecode
  · simp at hdecode
  next h₄ =>
  split_ifs at hdecode with hbad
  obtain rfl := Option.some.inj hdecode
  have hlen₁ := LittleEndian.length_of_read h₁
  have hlen₂ := LittleEndian.length_of_read h₂
  have hlen₃ := LittleEndian.length_of_read h₃
  have hlen₄ := LittleEndian.length_of_read h₄
  simp only
  omega

/-! ## IPsec names -/

def maxIPsecSANames : ℕ := 4096

def maxIPsecSANameLen : ℕ := 256

def newline : UInt8 := 10

/-- The names, joined by newlines. -/
def encodeIPsecSAPayload (names : List Bytes) : Bytes := List.intercalate [newline] names

/-- The names in runs of at most `maxIPsecSANames`. -/
def nameGroups (names : List Bytes) : List (List Bytes) :=
  if names = [] then [] else names.take maxIPsecSANames :: nameGroups (names.drop maxIPsecSANames)
  termination_by names.length
  decreasing_by
    have hpos := List.length_pos_of_ne_nil ‹_›
    simp only [maxIPsecSANames, List.length_drop]
    omega

/-- The bodies of a set's chunks, and its number of names. -/
def encodeIPsecSAChunkBodies (names : List Bytes) : List Bytes × ℕ :=
  let bodies := (nameGroups names).map encodeIPsecSAPayload
  (if bodies = [] then [encodeIPsecSAPayload []] else bodies, names.length)

def errIPsecSAChunkNameTooLong : String := "cluster sync: IPsec SA chunk name exceeds byte limit"

def errIPsecSAChunkTooManyNames : String := "cluster sync: IPsec SA chunk exceeds per-chunk name limit"

/-- The names read so far, and the rest of the body. Empty lines are skipped. -/
def decodeNames (names : List Bytes) (payload : Bytes) : Except String (List Bytes) :=
  if payload = [] then .ok names
  else
    let line := payload.takeWhile (· ≠ newline)
    let rest := (payload.dropWhile (· ≠ newline)).drop 1
    if line = [] then decodeNames names rest
    else if maxIPsecSANameLen < line.length then .error errIPsecSAChunkNameTooLong
    else if maxIPsecSANames ≤ names.length then .error errIPsecSAChunkTooManyNames
    else decodeNames (names ++ [line]) rest
  termination_by payload.length
  decreasing_by
    all_goals
      have hpos := List.length_pos_of_ne_nil ‹payload ≠ []›
      have hle := (List.dropWhile_sublist (p := fun b => decide (b ≠ newline)) (l := payload)).length_le
      simp only [List.length_drop]
      omega

def decodeIPsecSAChunkBody (payload : Bytes) : Except String (List Bytes) := decodeNames [] payload

/-- A name that can be sent: not empty, on one line, and not over-long. -/
def ValidName (name : Bytes) : Prop := name ≠ [] ∧ newline ∉ name ∧ name.length ≤ maxIPsecSANameLen

instance (name : Bytes) : Decidable (ValidName name) := by
  unfold ValidName
  infer_instance

/-- The first line of a text that starts with a name. -/
theorem line_append {name : Bytes} (h : newline ∉ name) (tail : Bytes) :
    (name ++ tail).takeWhile (· ≠ newline) = name ++ tail.takeWhile (· ≠ newline)
      ∧ (name ++ tail).dropWhile (· ≠ newline) = tail.dropWhile (· ≠ newline) := by
  have hall : ∀ b ∈ name, decide (b ≠ newline) = true := by
    intro b hb
    rw [decide_eq_true_eq]
    rintro rfl
    exact h hb
  exact ⟨List.takeWhile_append_of_pos hall, List.dropWhile_append_of_pos hall⟩

/-- Joined names come apart again. -/
theorem decodeNames_encode (names : List Bytes) (acc : List Bytes) (hvalid : ∀ n ∈ names, ValidName n)
    (hcount : acc.length + names.length ≤ maxIPsecSANames) :
    decodeNames acc (encodeIPsecSAPayload names) = .ok (acc ++ names) := by
  induction names generalizing acc with
  | nil =>
    unfold encodeIPsecSAPayload decodeNames
    simp
  | cons name names ih =>
    obtain ⟨hne, hline, hlen⟩ := hvalid name (by simp)
    have hrest := ih (acc ++ [name]) (fun n hn => hvalid n (List.mem_cons_of_mem _ hn)) (by simp at hcount ⊢; omega)
    have hroom : ¬ maxIPsecSANames ≤ acc.length := by
      simp only [List.length_cons] at hcount
      omega
    have hlong : ¬ maxIPsecSANameLen < name.length := by omega
    cases names with
    | nil =>
      obtain ⟨htake, hdrop⟩ := line_append hline []
      simp only [List.append_nil, List.takeWhile_nil, List.dropWhile_nil] at htake hdrop
      have hpayload : encodeIPsecSAPayload [name] = name := by simp [encodeIPsecSAPayload, List.intercalate]
      rw [hpayload]
      unfold decodeNames
      rw [if_neg hne]
      simp only [htake, hdrop, List.drop_nil]
      rw [if_neg hne, if_neg hlong, if_neg hroom]
      unfold decodeNames
      simp
    | cons next names =>
      have hpayload : encodeIPsecSAPayload (name :: next :: names)
          = name ++ newline :: encodeIPsecSAPayload (next :: names) := by
        simp [encodeIPsecSAPayload, List.intercalate]
      obtain ⟨htake, hdrop⟩ := line_append hline (newline :: encodeIPsecSAPayload (next :: names))
      simp only [List.takeWhile_cons, List.dropWhile_cons, ne_eq, not_true_eq_false, decide_false,
        Bool.false_eq_true, if_false, List.append_nil] at htake hdrop
      rw [hpayload]
      unfold decodeNames
      rw [if_neg (by simp)]
      simp only [ne_eq, htake, hdrop, List.drop_succ_cons, List.drop_zero]
      rw [if_neg hne, if_neg hlong, if_neg hroom, hrest]
      simp

/-- A body that is read has no more names than a chunk may hold. -/
theorem length_decodeNames (names : List Bytes) (payload : Bytes) {out : List Bytes}
    (hnames : names.length ≤ maxIPsecSANames) (h : decodeNames names payload = .ok out) :
    out.length ≤ maxIPsecSANames := by
  induction names, payload using decodeNames.induct with
  | case1 names =>
    unfold decodeNames at h
    simp only [if_true] at h
    obtain rfl := Except.ok.inj h
    exact hnames
  | case2 names payload hne line rest hline ih =>
    unfold decodeNames at h
    rw [if_neg hne] at h
    simp only at h
    rw [if_pos hline] at h
    exact ih hnames h
  | case3 names payload hne line hline hlong =>
    unfold decodeNames at h
    rw [if_neg hne] at h
    simp only at h
    rw [if_neg hline, if_pos hlong] at h
    simp at h
  | case4 names payload hne line hline hlong hfull =>
    unfold decodeNames at h
    rw [if_neg hne] at h
    simp only at h
    rw [if_neg hline, if_neg hlong, if_pos hfull] at h
    simp at h
  | case5 names payload hne line rest hline hlong hfull ih =>
    unfold decodeNames at h
    rw [if_neg hne] at h
    simp only at h
    rw [if_neg hline, if_neg hlong, if_neg hfull] at h
    refine ih ?_ h
    rw [List.length_append, List.length_singleton]
    omega

theorem nameGroups_flatten (names : List Bytes) : (nameGroups names).flatten = names := by
  induction names using nameGroups.induct with
  | case1 =>
    unfold nameGroups
    simp
  | case2 names hne ih =>
    unfold nameGroups
    rw [if_neg hne, List.flatten_cons, ih, List.take_append_drop]

theorem mem_nameGroups {names group : List Bytes} (h : group ∈ nameGroups names) :
    group ≠ [] ∧ group.length ≤ maxIPsecSANames := by
  induction names using nameGroups.induct with
  | case1 =>
    unfold nameGroups at h
    simp at h
  | case2 names hne ih =>
    unfold nameGroups at h
    rw [if_neg hne, List.mem_cons] at h
    rcases h with rfl | h
    · refine ⟨?_, by simp⟩
      rw [ne_eq, List.take_eq_nil_iff]
      exact not_or.mpr ⟨by decide, hne⟩
    · exact ih h

/-! ## DHCP leases -/

/-- A lease as it is synced. The numbers are Go integers; strings are their bytes. -/
structure SyncLease where
  family : ℤ
  address : Bytes
  subnetID : ℤ
  hwAddress : Bytes
  clientID : Bytes
  duid : Bytes
  iaid : UInt32
  leaseType : Bytes
  prefixLen : ℤ
  hostname : Bytes
  fqdnFwd : Bool
  fqdnRev : Bool
  validLife : ℤ
  remaining : ℤ
  preferredRemaining : ℤ
  state : ℤ
  deriving DecidableEq

/-- The lease of which nothing was read. -/
def SyncLease.zero : SyncLease := ⟨0, [], 0, [], [], [], 0, [], 0, [], false, false, 0, 0, 0, 0⟩

/-- The `count` low bytes of an integer, as Go's conversion to an unsigned type keeps them. -/
def lowBytes (count : ℕ) (v : ℤ) : Bytes := encode count (v % 256 ^ count).toNat

/-- A string with its length in two bytes; a longer one is refused. -/
def putLeaseString (s : Bytes) : Except String Bytes :=
  if 65535 < s.length then
    .error ("lease-sync string field length " ++ toString s.length ++ " exceeds uint16 wire limit 65535")
  else .ok (encode 2 s.length ++ s)

/-- The same, with the field named in the error. -/
def putLeaseField (field : String) (s : Bytes) : Except String Bytes :=
  (putLeaseString s).mapError fun err => "encode lease " ++ field ++ ": " ++ err

def getLeaseString (buf : Bytes) : Option (Bytes × Bytes) :=
  match read 2 buf with
  | none => none
  | some (n, buf) => if n ≤ buf.length then some (buf.take n, buf.drop n) else none

def leaseFlags (l : SyncLease) : UInt8 := (if l.fqdnFwd then 1 else 0) ||| (if l.fqdnRev then 2 else 0)

/-- One lease record, without its length. -/
def encodeOneLease (l : SyncLease) : Except String Bytes := do
  let address ← putLeaseField "Address" l.address
  let hwAddress ← putLeaseField "HWAddress" l.hwAddress
  let clientID ← putLeaseField "ClientID" l.clientID
  let duid ← putLeaseField "DUID" l.duid
  let leaseType ← putLeaseField "LeaseType" l.leaseType
  let hostname ← putLeaseField "Hostname" l.hostname
  return lowBytes 1 l.family ++ (address ++ (lowBytes 4 l.subnetID ++ (lowBytes 4 l.validLife ++
    (lowBytes 4 l.remaining ++ (lowBytes 1 l.state ++ (hwAddress ++ (clientID ++ (duid ++
    (encode 4 l.iaid.toNat ++ (leaseType ++ (lowBytes 4 l.prefixLen ++ (hostname ++ ([leaseFlags l] ++
    lowBytes 4 l.preferredRemaining)))))))))))))

/-- One lease record, read back field by field. A record that ends early leaves the fields
after its end at zero, but for the preferred lifetime, which is then the valid one. -/
def decodeOneLease (buf : Bytes) : SyncLease :=
  let l := SyncLease.zero
  match buf with
  | [] => l
  | family :: buf =>
  let l := { l with family := family.toNat }
  match getLeaseString buf with
  | none => l
  | some (address, buf) =>
  let l := { l with address }
  match read 4 buf with
  | none => l
  | some (subnetID, buf) =>
  let l := { l with subnetID }
  match read 4 buf with
  | none => l
  | some (validLife, buf) =>
  let l := { l with validLife }
  match read 4 buf with
  | none => l
  | some (remaining, buf) =>
  let l := { l with remaining, preferredRemaining := remaining }
  match buf with
  | [] => l
  | state :: buf =>
  let l := { l with state := state.toNat }
  match getLeaseString buf with
  | none => l
  | some (hwAddress, buf) =>
  let l := { l with hwAddress }
  match getLeaseString buf with
  | none => l
  | some (clientID, buf) =>
  let l := { l with clientID }
  match getLeaseString buf with
  | none => l
  | some (duid, buf) =>
  let l := { l with duid }
  match read 4 buf with
  | none => l
  | some (iaid, buf) =>
  let l := { l with iaid := UInt32.ofNat iaid }
  match getLeaseString buf with
  | none => l
  | some (leaseType, buf) =>
  let l := { l with leaseType }
  match read 4 buf with
  | none => l
  | some (prefixLen, buf) =>
  let l := { l with prefixLen }
  match getLeaseString buf with
  | none => l
  | some (hostname, buf) =>
  let l := { l with hostname }
  match buf with
  | [] => l
  | flags :: buf =>
  let l := { l with fqdnFwd := flags &&& 1 ≠ 0, fqdnRev := flags &&& 2 ≠ 0 }
  match read 4 buf with
  | none => l
  | some (preferredRemaining, _) => { l with preferredRemaining }

def minDHCPLeaseRecordLen : ℕ := 36

/-- The first pass over the records: how many of them arrived whole. A record that is cut, too
short for a lease or without an address spoils the set; a count that is too high does not. -/
def wholeRecords : ℕ → Bytes → Option ℕ
  | 0, _ => some 0
  | count + 1, payload =>
    match read 4 payload with
    | none => some 0
    | some (recLen, payload) =>
      if recLen < minDHCPLeaseRecordLen then none
      else if payload.length < recLen then none
      else
        let addrLen := decode ((payload.drop 1).take 2)
        if addrLen = 0 ∨ recLen < 3 + addrLen then none
        else (wholeRecords count (payload.drop recLen)).map (· + 1)

/-- The second pass: the leases of that many whole records. -/
def decodeRecords : ℕ → Bytes → List SyncLease
  | 0, _ => []
  | count + 1, payload =>
    let recLen := decode (payload.take 4)
    decodeOneLease ((payload.drop 4).take recLen) :: decodeRecords count ((payload.drop 4).drop recLen)

/-- A lease set: a count and that many records. Bytes after the last are ignored. -/
def decodeDHCPLeasePayload (payload : Bytes) : Option (List SyncLease) :=
  match read 4 payload with
  | none => none
  | some (count, records) =>
    if payload.length / 4 < count then none
    else (wholeRecords count records).map fun whole => decodeRecords whole records

/-! ### Packing lease records into chunks -/

def dhcpChunkHeaderLen : ℕ := 20

def fullSetSeqTrailerLen : ℕ := 24

/-- The budget for one chunk's body: the frame less the header, the sequence trailer and an
allowance for the authority trailer. -/
def dhcpChunkFrameBudget : ℕ := maxSyncPayload - dhcpChunkHeaderLen - fullSetSeqTrailerLen - 4096

/-- The records of one chunk, counted and with their lengths. -/
def leaseBody (records : List Bytes) : Bytes :=
  encode 4 records.length ++ records.flatMap fun record => encode 4 record.length ++ record

/-- The chunk bodies so far, the records of the chunk being filled and its size. -/
structure Packing where
  bodies : List Bytes
  cur : List Bytes
  curBytes : ℕ
  kept : ℕ
  dropped : ℕ

def Packing.start : Packing := ⟨[], [], 4, 0, 0⟩

def Packing.flush (p : Packing) : Packing :=
  { p with bodies := p.bodies ++ [leaseBody p.cur], cur := [], curBytes := 4 }

/-- One lease more: dropped if it cannot be encoded or fits no frame, else appended to the
current chunk, which is closed first when it would not hold it. -/
def Packing.add (p : Packing) (l : SyncLease) : Packing :=
  match encodeOneLease l with
  | .error _ => { p with dropped := p.dropped + 1 }
  | .ok record =>
    let need := 4 + record.length
    if dhcpChunkFrameBudget < 4 + need then { p with dropped := p.dropped + 1 }
    else
      let p := if p.cur ≠ [] ∧ dhcpChunkFrameBudget < p.curBytes + need then p.flush else p
      { p with cur := p.cur ++ [record], curBytes := p.curBytes + need, kept := p.kept + 1 }

/-- The chunk bodies of a lease set, with the number of leases kept and dropped. -/
def encodeDHCPLeaseChunkFrames (leases : List SyncLease) : List Bytes × ℕ × ℕ :=
  let p := leases.foldl Packing.add .start
  let p := if p.cur ≠ [] ∨ p.bodies = [] then p.flush else p
  (p.bodies, p.kept, p.dropped)

/-! ### What a lease record carries -/

/-- A number the record has the bytes for. -/
def Fits (count : ℕ) (v : ℤ) : Prop := 0 ≤ v ∧ v < 256 ^ count

instance (count : ℕ) (v : ℤ) : Decidable (Fits count v) := by
  unfold Fits
  infer_instance

/-- The lease that a record can carry: it can be encoded, it has an address, and its numbers
are within the widths of the record. -/
structure SyncLease.OnWire (l : SyncLease) : Prop where
  encodable : ∃ record, encodeOneLease l = .ok record
  address : l.address ≠ []
  family : Fits 1 l.family
  state : Fits 1 l.state
  subnetID : Fits 4 l.subnetID
  validLife : Fits 4 l.validLife
  remaining : Fits 4 l.remaining
  prefixLen : Fits 4 l.prefixLen
  preferredRemaining : Fits 4 l.preferredRemaining

/-- A string as it stands in a record. -/
def leaseString (s : Bytes) : Bytes := encode 2 s.length ++ s

/-- The record of a lease whose strings fit. -/
def leaseRecord (l : SyncLease) : Bytes :=
  lowBytes 1 l.family ++ (leaseString l.address ++ (lowBytes 4 l.subnetID ++ (lowBytes 4 l.validLife ++
    (lowBytes 4 l.remaining ++ (lowBytes 1 l.state ++ (leaseString l.hwAddress ++ (leaseString l.clientID ++
    (leaseString l.duid ++ (encode 4 l.iaid.toNat ++ (leaseString l.leaseType ++ (lowBytes 4 l.prefixLen ++
    (leaseString l.hostname ++ ([leaseFlags l] ++ lowBytes 4 l.preferredRemaining)))))))))))))

theorem putLeaseField_ok {field : String} {s out : Bytes} (h : putLeaseField field s = .ok out) :
    s.length ≤ 65535 ∧ out = leaseString s := by
  unfold putLeaseField putLeaseString at h
  split_ifs at h with hlong
  · simp [Except.mapError] at h
  · refine ⟨by omega, ?_⟩
    exact (Except.ok.inj h).symm

/-- The strings of a lease that can be encoded fit, and its record is the one above. -/
theorem encodeOneLease_ok {l : SyncLease} {record : Bytes} (h : encodeOneLease l = .ok record) :
    record = leaseRecord l ∧ l.address.length ≤ 65535 ∧ l.hwAddress.length ≤ 65535 ∧ l.clientID.length ≤ 65535
      ∧ l.duid.length ≤ 65535 ∧ l.leaseType.length ≤ 65535 ∧ l.hostname.length ≤ 65535 := by
  unfold encodeOneLease at h
  cases h₁ : putLeaseField "Address" l.address with
  | error e => simp [h₁, bind, Except.bind] at h
  | ok address =>
  cases h₂ : putLeaseField "HWAddress" l.hwAddress with
  | error e => simp [h₁, h₂, bind, Except.bind] at h
  | ok hwAddress =>
  cases h₃ : putLeaseField "ClientID" l.clientID with
  | error e => simp [h₁, h₂, h₃, bind, Except.bind] at h
  | ok clientID =>
  cases h₄ : putLeaseField "DUID" l.duid with
  | error e => simp [h₁, h₂, h₃, h₄, bind, Except.bind] at h
  | ok duid =>
  cases h₅ : putLeaseField "LeaseType" l.leaseType with
  | error e => simp [h₁, h₂, h₃, h₄, h₅, bind, Except.bind] at h
  | ok leaseType =>
  cases h₆ : putLeaseField "Hostname" l.hostname with
  | error e => simp [h₁, h₂, h₃, h₄, h₅, h₆, bind, Except.bind] at h
  | ok hostname =>
    simp only [h₁, h₂, h₃, h₄, h₅, h₆, bind, Except.bind, pure, Except.pure, Except.ok.injEq] at h
    obtain ⟨hlen₁, rfl⟩ := putLeaseField_ok h₁
    obtain ⟨hlen₂, rfl⟩ := putLeaseField_ok h₂
    obtain ⟨hlen₃, rfl⟩ := putLeaseField_ok h₃
    obtain ⟨hlen₄, rfl⟩ := putLeaseField_ok h₄
    obtain ⟨hlen₅, rfl⟩ := putLeaseField_ok h₅
    obtain ⟨hlen₆, rfl⟩ := putLeaseField_ok h₆
    exact ⟨h.symm, hlen₁, hlen₂, hlen₃, hlen₄, hlen₅, hlen₆⟩

theorem getLeaseString_append {s : Bytes} (h : s.length ≤ 65535) (rest : Bytes) :
    getLeaseString (leaseString s ++ rest) = some (s, rest) := by
  unfold getLeaseString leaseString
  rw [List.append_assoc, LittleEndian.read_encode_append 2 _ _ (by omega)]
  simp

theorem read_lowBytes_append {count : ℕ} {v : ℤ} (h : Fits count v) (rest : Bytes) :
    read count (lowBytes count v ++ rest) = some (v.toNat, rest) := by
  unfold lowBytes
  have hmod : v % 256 ^ count = v := Int.emod_eq_of_lt h.1 h.2
  have hlt : v.toNat < 256 ^ count := by
    have := h.2
    rw [Int.toNat_lt h.1]
    exact_mod_cast this
  rw [hmod, LittleEndian.read_encode_append count _ _ hlt]

theorem lowBytes_one {v : ℤ} (h : Fits 1 v) : ∃ b : UInt8, lowBytes 1 v = [b] ∧ (b.toNat : ℤ) = v := by
  have hmod : v % 256 ^ 1 = v := Int.emod_eq_of_lt h.1 h.2
  refine ⟨UInt8.ofNat v.toNat, ?_, ?_⟩
  · unfold lowBytes
    rw [hmod]
    rfl
  · have hlt : v.toNat < 256 := by
      have := h.2
      omega
    rw [UInt8.toNat_ofNat', Nat.mod_eq_of_lt hlt]
    exact Int.toNat_of_nonneg h.1

theorem leaseFlags_bits (l : SyncLease) :
    decide (leaseFlags l &&& 1 ≠ 0) = l.fqdnFwd ∧ decide (leaseFlags l &&& 2 ≠ 0) = l.fqdnRev := by
  unfold leaseFlags
  cases l.fqdnFwd <;> cases l.fqdnRev <;> decide

/-- A record is read back as the lease it carries. -/
theorem decodeOneLease_leaseRecord {l : SyncLease} (h : l.OnWire) : decodeOneLease (leaseRecord l) = l := by
  obtain ⟨record, hrecord⟩ := h.encodable
  obtain ⟨-, h₁, h₂, h₃, h₄, h₅, h₆⟩ := encodeOneLease_ok hrecord
  obtain ⟨family, hfamily, hfamily'⟩ := lowBytes_one h.family
  obtain ⟨state, hstate, hstate'⟩ := lowBytes_one h.state
  obtain ⟨hfwd, hrev⟩ := leaseFlags_bits l
  have hlast := read_lowBytes_append h.preferredRemaining []
  rw [List.append_nil] at hlast
  have hiaid : l.iaid.toNat < 256 ^ 4 := l.iaid.toNat_lt
  unfold leaseRecord decodeOneLease
  simp only [hfamily, getLeaseString_append h₁, read_lowBytes_append h.subnetID, read_lowBytes_append h.validLife,
    read_lowBytes_append h.remaining, hstate, getLeaseString_append h₂, getLeaseString_append h₃,
    getLeaseString_append h₄, LittleEndian.read_encode_append 4 _ _ hiaid, getLeaseString_append h₅,
    read_lowBytes_append h.prefixLen, getLeaseString_append h₆, List.singleton_append, hlast, hfamily', hstate', hfwd, hrev,
    UInt32.ofNat_toNat, Int.toNat_of_nonneg h.subnetID.1, Int.toNat_of_nonneg h.validLife.1,
    Int.toNat_of_nonneg h.remaining.1, Int.toNat_of_nonneg h.prefixLen.1, Int.toNat_of_nonneg h.preferredRemaining.1]

@[simp] theorem length_lowBytes (count : ℕ) (v : ℤ) : (lowBytes count v).length = count :=
  LittleEndian.length_encode count _

@[simp] theorem length_leaseString (s : Bytes) : (leaseString s).length = 2 + s.length := by
  simp [leaseString]

theorem length_leaseRecord (l : SyncLease) :
    (leaseRecord l).length = 39 + l.address.length + l.hwAddress.length + l.clientID.length + l.duid.length
      + l.leaseType.length + l.hostname.length := by
  simp only [leaseRecord, List.length_append, length_lowBytes, length_leaseString, LittleEndian.length_encode,
    List.length_singleton]
  omega

/-- A record is at least as long as the shortest the receiver reads, and far from the frame
budget. -/
theorem SyncLease.OnWire.length_bounds {l : SyncLease} (h : l.OnWire) :
    minDHCPLeaseRecordLen ≤ (leaseRecord l).length ∧ 3 + l.address.length ≤ (leaseRecord l).length
      ∧ (leaseRecord l).length < 2 ^ 19 ∧ 0 < l.address.length ∧ l.address.length < 2 ^ 16 := by
  obtain ⟨record, hrecord⟩ := h.encodable
  obtain ⟨-, h₁, h₂, h₃, h₄, h₅, h₆⟩ := encodeOneLease_ok hrecord
  have hpos := List.length_pos_of_ne_nil h.address
  rw [length_leaseRecord]
  unfold minDHCPLeaseRecordLen
  omega

theorem address_of_leaseRecord {l : SyncLease} (h : l.OnWire) (rest : Bytes) :
    decode (((leaseRecord l ++ rest).drop 1).take 2) = l.address.length := by
  obtain ⟨family, hfamily, -⟩ := lowBytes_one h.family
  unfold leaseRecord leaseString
  rw [hfamily]
  simp only [List.cons_append, List.drop_succ_cons, List.drop_zero, List.append_assoc]
  exact LittleEndian.decode_take_encode_append 2 _ _ h.length_bounds.2.2.2.2

/-- The records of leases, each after its length. -/
def leaseRecords (leases : List SyncLease) : Bytes :=
  (leases.map leaseRecord).flatMap fun record => encode 4 record.length ++ record

theorem leaseRecords_cons (l : SyncLease) (leases : List SyncLease) :
    leaseRecords (l :: leases) = encode 4 (leaseRecord l).length ++ (leaseRecord l ++ leaseRecords leases) := by
  simp [leaseRecords]

theorem wholeRecords_leaseRecords {leases : List SyncLease} (h : ∀ l ∈ leases, l.OnWire) :
    wholeRecords leases.length (leaseRecords leases) = some leases.length := by
  induction leases with
  | nil => rfl
  | cons l leases ih =>
    have hl := h l (by simp)
    obtain ⟨hmin, haddr, hmax, hpos, -⟩ := hl.length_bounds
    rw [leaseRecords_cons, List.length_cons]
    unfold wholeRecords
    rw [LittleEndian.read_encode_append 4 _ _ (by omega)]
    simp only
    rw [if_neg (by omega), if_neg (by simp), address_of_leaseRecord hl, if_neg (by omega), List.drop_left,
      ih fun l' hl' => h l' (List.mem_cons_of_mem _ hl')]
    rfl

theorem decodeRecords_leaseRecords {leases : List SyncLease} (h : ∀ l ∈ leases, l.OnWire) :
    decodeRecords leases.length (leaseRecords leases) = leases := by
  induction leases with
  | nil => rfl
  | cons l leases ih =>
    have hl := h l (by simp)
    have hmax := hl.length_bounds.2.2.1
    have hread := LittleEndian.read_encode_append 4 (leaseRecord l).length (leaseRecord l ++ leaseRecords leases) (by omega)
    unfold LittleEndian.read at hread
    rw [if_pos (by simp)] at hread
    obtain ⟨hlen, hdrop⟩ := Prod.mk.inj (Option.some.inj hread)
    rw [leaseRecords_cons, List.length_cons]
    unfold decodeRecords
    simp only [hlen, hdrop]
    rw [List.take_left, List.drop_left, decodeOneLease_leaseRecord hl, ih fun l' hl' => h l' (List.mem_cons_of_mem _ hl')]

/-- **The body of a chunk is read back as the leases it was made of.** -/
theorem decodeDHCPLeasePayload_leaseBody {leases : List SyncLease} (h : ∀ l ∈ leases, l.OnWire)
    (hcount : leases.length < 2 ^ 32) : decodeDHCPLeasePayload (leaseBody (leases.map leaseRecord)) = some leases := by
  have hbody : leaseBody (leases.map leaseRecord) = encode 4 leases.length ++ leaseRecords leases := by
    simp [leaseBody, leaseRecords]
  have hlen : 4 * leases.length ≤ (leaseRecords leases).length := by
    clear hcount hbody h
    induction leases with
    | nil => simp
    | cons l leases ih =>
      rw [leaseRecords_cons]
      simp only [List.length_append, LittleEndian.length_encode, List.length_cons]
      omega
  rw [hbody]
  unfold decodeDHCPLeasePayload
  rw [LittleEndian.read_encode_append 4 _ _ (by omega)]
  simp only
  rw [if_neg, wholeRecords_leaseRecords h, Option.map_some, decodeRecords_leaseRecords h]
  rw [List.length_append, LittleEndian.length_encode]
  omega

theorem wholeRecords_le {count whole : ℕ} {payload : Bytes} (h : wholeRecords count payload = some whole) : whole ≤ count := by
  induction count generalizing payload whole with
  | zero =>
    obtain rfl : 0 = whole := Option.some.inj h
    exact Nat.zero_le _
  | succ count ih =>
    unfold wholeRecords at h
    split at h
    · obtain rfl : 0 = whole := Option.some.inj h
      exact Nat.zero_le _
    · simp only at h
      split_ifs at h
      obtain ⟨whole', hwhole, rfl⟩ := Option.map_eq_some_iff.mp h
      have hle := ih hwhole
      omega

theorem length_decodeRecords (whole : ℕ) (payload : Bytes) : (decodeRecords whole payload).length = whole := by
  induction whole generalizing payload with
  | zero => rfl
  | succ whole ih =>
    unfold decodeRecords
    simp only [List.length_cons, ih]

/-- A body gives fewer leases than it has bytes. -/
theorem length_decodeDHCPLeasePayload {payload : Bytes} {leases : List SyncLease}
    (h : decodeDHCPLeasePayload payload = some leases) : leases.length ≤ payload.length / 4 := by
  unfold decodeDHCPLeasePayload at h
  split at h
  · simp at h
  · split_ifs at h with hcount
    obtain ⟨whole, hwhole, rfl⟩ := Option.map_eq_some_iff.mp h
    rw [length_decodeRecords]
    have hle := wholeRecords_le hwhole
    omega

end Xpf.ChunkSync
