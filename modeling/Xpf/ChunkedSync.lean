/-
Chunked full sets, end to end: what the sender splits, the receiver puts together again, in
whatever order the chunks arrive and whatever arrives between them.

The two splitters only have to be shown to cut a set into runs that their bodies carry; the
rest of the argument is the same for names and for leases and is made once, for any decoder
of bodies.
-/
import Xpf.ChunkCodec

set_option autoImplicit false

namespace Xpf.ChunkSync

/-! ## Sender and receiver -/

/-- The bound on sets in progress: `ipsecChunkMaxPending` and `dhcpChunkMaxPending`. -/
def chunkMaxPending : ℕ := 5

/-- The payloads of a set's chunks, numbered, under one generation. -/
def chunkPayloads (generation : UInt64) (bodies : List Bytes) (announced : ℕ) : List Bytes :=
  bodies.zipIdx.map fun b => encodeChunkPayload b.1 generation b.2 bodies.length announced

def ipsecSAChunkPayloads (generation : UInt64) (names : List Bytes) : List Bytes :=
  chunkPayloads generation (encodeIPsecSAChunkBodies names).1 (encodeIPsecSAChunkBodies names).2

def dhcpLeaseChunkPayloads (generation : UInt64) (leases : List SyncLease) : List Bytes :=
  chunkPayloads generation (encodeDHCPLeaseChunkFrames leases).1 (encodeDHCPLeaseChunkFrames leases).2.1

section

variable {α : Type}

/-- A received payload as a chunk; a payload that does not decode is dropped. -/
def decodeChunk (decodeBody : Bytes → Option (List α)) (incarnation : UInt64) (payload : Bytes) : Option (Chunk α) :=
  match decodeChunkHeader payload with
  | none => none
  | some h => (decodeBody h.body).map fun items => ⟨⟨incarnation, h.generation⟩, h.index, h.total, h.announced, items⟩

/-- The chunks of the frames that decode, in the order of the frames. A frame is an
incarnation and a payload. -/
def decodedChunks (decodeBody : Bytes → Option (List α)) (frames : List (UInt64 × Bytes)) : List (Chunk α) :=
  frames.filterMap fun f => decodeChunk decodeBody f.1 f.2

/-- The receiver after those frames. -/
def receivedFrames (decodeBody : Bytes → Option (List α)) (frames : List (UInt64 × Bytes)) :
    ChunkState α × List (ChunkGeneration × List α) := received chunkMaxPending (decodedChunks decodeBody frames)

end

/-- The body of an IPsec chunk, or nothing where the source reports an error. -/
def ipsecSABody (body : Bytes) : Option (List Bytes) := (decodeIPsecSAChunkBody body).toOption

/-! ## Cutting a set into runs -/

section

variable {α : Type}

/-- The chunks of a set cut into runs. -/
def runChunks (key : ChunkGeneration) (runs : List (List α)) : List (Chunk α) :=
  runs.zipIdx.map fun r => ⟨key, r.2, runs.length, runs.flatten.length, r.1⟩

theorem runChunks_items (key : ChunkGeneration) (runs : List (List α)) :
    (runChunks key runs).flatMap Chunk.items = runs.flatten := by
  have hitems : (runChunks key runs).map Chunk.items = runs := by
    unfold runChunks
    rw [List.map_map]
    exact List.zipIdx_map_fst 0 runs
  rw [List.flatMap_def, hitems]

theorem split_runChunks {key : ChunkGeneration} {runs : List (List α)} (hne : runs ≠ [])
    (hcount : runs.flatten.length ≤ chunkMaxTotal) : Split key (runChunks key runs) where
  nonempty := by simpa [runChunks] using hne
  indices := by
    unfold runChunks
    rw [List.map_map, List.length_map, List.length_zipIdx, List.range_eq_range']
    exact List.zipIdx_map_snd 0 runs
  generation := by
    intro c hc
    obtain ⟨r, -, rfl⟩ := List.mem_map.mp hc
    refine ⟨rfl, by simp [runChunks], ?_⟩
    rw [← length_flatMap_items, runChunks_items]
  bounded := by
    rw [← length_flatMap_items, runChunks_items]
    unfold chunkMaxTotal at hcount
    omega

/-- The payloads of a set cut into runs are read back as its chunks. -/
theorem decodedChunks_payloads {decodeBody : Bytes → Option (List α)} {runs : List (List α)} {encodeBody : List α → Bytes}
    (hbody : ∀ run ∈ runs, decodeBody (encodeBody run) = some run) {generation : UInt64} (hgen : generation ≠ 0)
    (hpos : 0 < runs.flatten.length) (hcount : runs.flatten.length ≤ chunkMaxTotal) (hlen : runs.length ≤ chunkMaxTotal)
    (incarnation : UInt64) :
    decodedChunks decodeBody
        ((chunkPayloads generation (runs.map encodeBody) runs.flatten.length).map fun payload => (incarnation, payload))
      = runChunks ⟨incarnation, generation⟩ runs := by
  unfold decodedChunks chunkPayloads runChunks
  rw [List.filterMap_map, List.zipIdx_map, List.map_map, List.filterMap_map, List.length_map]
  rw [← List.filterMap_eq_map]
  refine List.filterMap_congr ?_
  rintro ⟨run, i⟩ hmem
  obtain ⟨hi, hrun⟩ := List.mem_zipIdx' hmem
  have hrunmem : run ∈ runs := by
    rw [hrun]
    exact List.getElem_mem hi
  simp only [Function.comp, Prod.map, id, decodeChunk]
  rw [decodeChunkHeader_encode hgen hi hlen hpos hcount]
  simp only
  rw [hbody run hrunmem]
  rfl

/-- What is sent comes back: whatever the order of the frames and whatever four other
generations send between them. -/
def Reassembles (decodeBody : Bytes → Option (List α)) (payloads : UInt64 → List α → List Bytes) (set : List α) : Prop :=
  ∀ (incarnation generation : UInt64) (noise frames : List (UInt64 × Bytes)) (others : List ChunkGeneration),
    generation ≠ 0 → (⟨incarnation, generation⟩ : ChunkGeneration) ∉ others → others.length ≤ 4 →
    (∀ c ∈ decodedChunks decodeBody noise, c.key ∈ others) →
    frames.Perm ((payloads generation set).map (fun payload => (incarnation, payload)) ++ noise) →
    (receivedFrames decodeBody frames).2.filter (fun e => e.1 = ⟨incarnation, generation⟩)
      = [(⟨incarnation, generation⟩, set)]

theorem reassembles_runs {decodeBody : Bytes → Option (List α)} {payloads : UInt64 → List α → List Bytes} {set : List α}
    {runs : List (List α)} (encodeBody : List α → Bytes) (hset : runs.flatten = set) (hne : set ≠ [])
    (hcount : set.length ≤ chunkMaxTotal) (hlen : runs.length ≤ chunkMaxTotal)
    (hbody : ∀ run ∈ runs, decodeBody (encodeBody run) = some run)
    (hpayloads : ∀ generation, payloads generation set = chunkPayloads generation (runs.map encodeBody) set.length) :
    Reassembles decodeBody payloads set := by
  subst hset
  intro incarnation generation noise frames others hgen hothers hfour hnoise hperm
  have hpos := List.length_pos_of_ne_nil hne
  have hruns : runs ≠ [] := by
    rintro rfl
    exact hne rfl
  have hsent := decodedChunks_payloads hbody hgen hpos hcount hlen incarnation
  rw [← hpayloads] at hsent
  have hchunks : (decodedChunks decodeBody frames).Perm
      (runChunks ⟨incarnation, generation⟩ runs ++ decodedChunks decodeBody noise) := by
    rw [← hsent]
    unfold decodedChunks
    rw [← List.filterMap_append]
    exact hperm.filterMap _
  have hkey : ∀ c ∈ runChunks (⟨incarnation, generation⟩ : ChunkGeneration) runs, c.key = ⟨incarnation, generation⟩ := by
    intro c hc
    obtain ⟨r, -, rfl⟩ := List.mem_map.mp hc
    rfl
  have hfilter : ((decodedChunks decodeBody frames).filter fun c => c.key = ⟨incarnation, generation⟩).Perm
      (runChunks ⟨incarnation, generation⟩ runs) := by
    refine (hchunks.filter _).trans ?_
    rw [List.filter_append, List.filter_eq_self.mpr (by simpa using hkey), List.filter_eq_nil_iff.mpr, List.append_nil]
    intro c hc
    rw [decide_eq_true_eq]
    rintro heq
    exact hothers (heq ▸ hnoise c hc)
  have hkeys : ∀ c ∈ decodedChunks decodeBody frames, c.key = ⟨incarnation, generation⟩ ∨ c.key ∈ others := by
    intro c hc
    rcases List.mem_append.mp (hchunks.mem_iff.mp hc) with hc | hc
    · exact Or.inl (hkey c hc)
    · exact Or.inr (hnoise c hc)
  have hreceived := received_split (split_runChunks hruns hcount) (show others.length < chunkMaxPending by
    unfold chunkMaxPending; omega) hfilter hkeys
  rw [runChunks_items] at hreceived
  exact hreceived

end

/-! ## The two splitters -/

theorem ipsecSABody_encode {names : List Bytes} (hvalid : ∀ n ∈ names, ValidName n) (hcount : names.length ≤ maxIPsecSANames) :
    ipsecSABody (encodeIPsecSAPayload names) = some names := by
  unfold ipsecSABody decodeIPsecSAChunkBody
  rw [decodeNames_encode names [] hvalid (by simpa using hcount)]
  rfl

/-- Runs that are not empty are no more than the elements they hold. -/
theorem length_le_length_flatten {α : Type} {runs : List (List α)} (h : ∀ run ∈ runs, run ≠ []) :
    runs.length ≤ runs.flatten.length := by
  induction runs with
  | nil => simp
  | cons run runs ih =>
    have hpos := List.length_pos_of_ne_nil (h run (by simp))
    have hrest := ih fun r hr => h r (List.mem_cons_of_mem _ hr)
    simp only [List.length_cons, List.flatten_cons, List.length_append]
    omega

theorem ipsecSA_reassembles {names : List Bytes} (hne : names ≠ []) (hcount : names.length ≤ chunkMaxTotal)
    (hvalid : ∀ n ∈ names, ValidName n) : Reassembles ipsecSABody ipsecSAChunkPayloads names := by
  have hflatten := nameGroups_flatten names
  have hgroups : nameGroups names ≠ [] := by
    intro hnil
    rw [hnil] at hflatten
    exact hne hflatten.symm
  refine reassembles_runs encodeIPsecSAPayload hflatten hne hcount ?_ ?_ ?_
  · have hnonempty : ∀ group ∈ nameGroups names, group ≠ [] := fun group hgroup => (mem_nameGroups hgroup).1
    have hlen := length_le_length_flatten hnonempty
    rw [hflatten] at hlen
    omega
  · intro group hgroup
    refine ipsecSABody_encode (fun n hn => hvalid n ?_) (mem_nameGroups hgroup).2
    rw [← hflatten]
    exact List.mem_flatten_of_mem hgroup hn
  · intro generation
    unfold ipsecSAChunkPayloads encodeIPsecSAChunkBodies
    simp only [List.map_eq_nil_iff, if_neg hgroups]

/-- What has been packed: the leases so far, cut into closed runs and the one being filled,
and no body above the budget. -/
structure Packed (p : Packing) (leases : List SyncLease) (runs : List (List SyncLease)) (cur : List SyncLease) : Prop where
  flatten : runs.flatten ++ cur = leases
  bodies : p.bodies = runs.map fun run => leaseBody (run.map leaseRecord)
  current : p.cur = cur.map leaseRecord
  curBytes : p.curBytes = (leaseBody p.cur).length
  kept : p.kept = leases.length
  dropped : p.dropped = 0
  nonempty : ∀ run ∈ runs, run ≠ []
  budget : ∀ body ∈ p.bodies, body.length ≤ dhcpChunkFrameBudget
  curBudget : p.curBytes ≤ dhcpChunkFrameBudget

theorem length_leaseBody_snoc (records : List Bytes) (record : Bytes) :
    (leaseBody (records ++ [record])).length = (leaseBody records).length + (4 + record.length) := by
  simp [leaseBody]
  omega

theorem packed_start : Packed .start [] [] [] where
  flatten := rfl
  bodies := rfl
  current := rfl
  curBytes := rfl
  kept := rfl
  dropped := rfl
  nonempty := by simp
  budget := by simp [Packing.start]
  curBudget := by decide

theorem Packed.flush {p : Packing} {leases : List SyncLease} {runs : List (List SyncLease)} {cur : List SyncLease}
    (h : Packed p leases runs cur) :
    p.flush.bodies = (runs ++ [cur]).map (fun run => leaseBody (run.map leaseRecord))
      ∧ ∀ body ∈ p.flush.bodies, body.length ≤ dhcpChunkFrameBudget := by
  refine ⟨?_, ?_⟩
  · simp [Packing.flush, h.bodies, h.current]
  · intro body hbody
    rcases List.mem_append.mp hbody with hbody | hbody
    · exact h.budget body hbody
    · rw [List.mem_singleton.mp hbody, ← h.curBytes]
      exact h.curBudget

theorem Packed.add {p : Packing} {leases : List SyncLease} {runs : List (List SyncLease)} {cur : List SyncLease}
    (h : Packed p leases runs cur) {l : SyncLease} (hl : l.OnWire) :
    ∃ runs' cur', Packed (p.add l) (leases ++ [l]) runs' cur' := by
  obtain ⟨record, hrecord⟩ := hl.encodable
  obtain ⟨rfl, -⟩ := encodeOneLease_ok hrecord
  have hsize := hl.length_bounds.2.2.1
  have hbudget : dhcpChunkFrameBudget = 16773076 := by decide
  have hfits : ¬ dhcpChunkFrameBudget < 4 + (4 + (leaseRecord l).length) := by omega
  unfold Packing.add
  rw [hrecord]
  simp only
  rw [if_neg hfits]
  by_cases hflush : p.cur ≠ [] ∧ dhcpChunkFrameBudget < p.curBytes + (4 + (leaseRecord l).length)
  · rw [if_pos hflush]
    obtain ⟨hbodies, hsizes⟩ := h.flush
    have hcur : cur ≠ [] := by
      rintro rfl
      exact hflush.1 (by simp [h.current])
    refine ⟨runs ++ [cur], [l], ⟨by simp [← h.flatten], hbodies, by simp [Packing.flush], ?_, ?_, h.dropped, ?_, hsizes, ?_⟩⟩
    · rw [length_leaseBody_snoc]
      rfl
    · simp [Packing.flush, h.kept]
    · intro run hrun
      rcases List.mem_append.mp hrun with hrun | hrun
      · exact h.nonempty run hrun
      · rw [List.mem_singleton.mp hrun]
        exact hcur
    · show 4 + (4 + (leaseRecord l).length) ≤ dhcpChunkFrameBudget
      omega
  · rw [if_neg hflush]
    refine ⟨runs, cur ++ [l], ⟨by simp [← h.flatten], h.bodies, by simp [h.current], ?_, ?_, h.dropped, h.nonempty, h.budget, ?_⟩⟩
    · rw [length_leaseBody_snoc, ← h.curBytes]
    · simp [h.kept]
    · show p.curBytes + (4 + (leaseRecord l).length) ≤ dhcpChunkFrameBudget
      by_cases hnil : p.cur = []
      · have hbytes := h.curBytes
        rw [hnil] at hbytes
        have hfour : (leaseBody []).length = 4 := rfl
        omega
      · have := not_and.mp hflush hnil
        omega

/-- The chunk bodies of leases that a record can carry: all leases, in runs, within the frame
budget. -/
theorem encodeDHCPLeaseChunkFrames_runs {leases : List SyncLease} (h : ∀ l ∈ leases, l.OnWire) (hne : leases ≠ []) :
    ∃ runs : List (List SyncLease), runs.flatten = leases ∧ (∀ run ∈ runs, run ≠ [])
      ∧ encodeDHCPLeaseChunkFrames leases = (runs.map fun run => leaseBody (run.map leaseRecord), leases.length, 0)
      ∧ ∀ body ∈ (encodeDHCPLeaseChunkFrames leases).1, body.length ≤ dhcpChunkFrameBudget := by
  have hpacked : ∃ runs cur, Packed (leases.foldl Packing.add .start) leases runs cur := by
    clear hne
    induction leases using List.reverseRecOn with
    | nil => exact ⟨[], [], packed_start⟩
    | append_singleton leases l ih =>
      obtain ⟨runs, cur, hruns⟩ := ih fun l' hl' => h l' (List.mem_append_left _ hl')
      rw [List.foldl_append]
      exact hruns.add (h l (by simp))
  obtain ⟨runs, cur, hpacked⟩ := hpacked
  obtain ⟨hbodies, hsizes⟩ := hpacked.flush
  -- the last run is never empty: the lease packed last is in it
  by_cases hcur : cur = []
  · subst hcur
    have hpcur : (leases.foldl Packing.add .start).cur = [] := by simpa using hpacked.current
    have hflatten : runs.flatten = leases := by simpa using hpacked.flatten
    have hruns : (leases.foldl Packing.add .start).bodies ≠ [] := by
      rw [hpacked.bodies]
      intro hnil
      rw [List.map_eq_nil_iff] at hnil
      rw [hnil] at hflatten
      exact hne hflatten.symm
    have hframes : encodeDHCPLeaseChunkFrames leases
        = ((leases.foldl Packing.add .start).bodies, leases.length, 0) := by
      unfold encodeDHCPLeaseChunkFrames
      simp only [hpcur, hruns, ne_eq, not_true_eq_false, or_self, if_false, hpacked.kept, hpacked.dropped]
    refine ⟨runs, hflatten, hpacked.nonempty, ?_, ?_⟩
    · rw [hframes, hpacked.bodies]
    · rw [hframes]
      exact hpacked.budget
  · have hpcur : (leases.foldl Packing.add .start).cur ≠ [] := by
      rw [hpacked.current]
      simpa using hcur
    have hframes : encodeDHCPLeaseChunkFrames leases
        = ((leases.foldl Packing.add .start).flush.bodies, leases.length, 0) := by
      unfold encodeDHCPLeaseChunkFrames
      simp only [hpcur, ne_eq, not_false_eq_true, true_or, if_true, Packing.flush, hpacked.kept, hpacked.dropped]
    refine ⟨runs ++ [cur], by simpa using hpacked.flatten, ?_, ?_, ?_⟩
    · intro run hrun
      rcases List.mem_append.mp hrun with hrun | hrun
      · exact hpacked.nonempty run hrun
      · rw [List.mem_singleton.mp hrun]
        exact hcur
    · rw [hframes, hbodies]
    · rw [hframes]
      exact hsizes

theorem dhcpLease_reassembles {leases : List SyncLease} (hne : leases ≠ []) (hcount : leases.length ≤ chunkMaxTotal)
    (h : ∀ l ∈ leases, l.OnWire) : Reassembles decodeDHCPLeasePayload dhcpLeaseChunkPayloads leases := by
  obtain ⟨runs, hflatten, hruns, hframes, -⟩ := encodeDHCPLeaseChunkFrames_runs h hne
  have hlen := length_le_length_flatten hruns
  rw [hflatten] at hlen
  refine reassembles_runs (fun run => leaseBody (run.map leaseRecord)) hflatten hne hcount (by omega) ?_ ?_
  · intro run hrun
    refine decodeDHCPLeasePayload_leaseBody (fun l hl => h l ?_) ?_
    · rw [← hflatten]
      exact List.mem_flatten_of_mem hrun hl
    · have hsub := (List.sublist_flatten_of_mem hrun).length_le
      rw [hflatten] at hsub
      unfold chunkMaxTotal at hcount
      omega
  · intro generation
    unfold dhcpLeaseChunkPayloads
    rw [hframes]

/-! ## Any frames whatsoever -/

section

variable {α : Type}

/-- After every sequence of frames the pending sets and their order hold the same keys within
the cap, and what was handed over on the way is the concatenation, in the order of the
indices, of one accepted chunk per index of one generation, as many items as announced. -/
def ClosesExactly (decodeBody : Bytes → Option (List α)) : Prop :=
  ∀ frames : List (UInt64 × Bytes), (∀ f ∈ frames, f.2.length ≤ maxSyncPayload) →
    (receivedFrames decodeBody frames).1.Consistent chunkMaxPending
      ∧ ∀ before c complete, before ++ [c] <+: decodedChunks decodeBody frames →
        ((received chunkMaxPending before).1.addChunk chunkMaxPending c).2 = .closed complete →
        ∃ chunks, Closes c chunks complete ∧ (∀ d ∈ chunks, d = c ∨ AcceptedIn chunkMaxPending before d)
          ∧ complete.length = c.announced

/-- A decoder of bodies that finds fewer items than bytes gives chunks that cannot wrap the
counters. -/
theorem closesExactly_of_length {decodeBody : Bytes → Option (List α)}
    (hlen : ∀ body items, body.length ≤ maxSyncPayload → decodeBody body = some items → items.length < 2 ^ 31) :
    ClosesExactly decodeBody := by
  intro frames hframes
  have hmodest : ∀ d ∈ decodedChunks decodeBody frames, d.Modest := by
    intro d hd
    obtain ⟨f, hf, hdecode⟩ := List.mem_filterMap.mp hd
    have hsize := hframes f hf
    unfold decodeChunk at hdecode
    cases hheader : decodeChunkHeader f.2 with
    | none => simp [hheader] at hdecode
    | some header =>
      rw [hheader] at hdecode
      obtain ⟨items, hitems, rfl⟩ := Option.map_eq_some_iff.mp hdecode
      obtain ⟨hannounced, hbody⟩ := decodeChunkHeader_bounds hheader
      unfold chunkMaxTotal at hannounced
      refine ⟨hlen _ items ?_ hitems, ?_⟩
      · exact hbody.trans hsize
      · show header.announced < 2 ^ 31
        omega
  refine ⟨received_consistent (by decide) _, ?_⟩
  intro before c complete hpre hclosed
  obtain ⟨chunks, hcloses, haccepted, hcount⟩ := closed_is_concatenation chunkMaxPending before c hclosed
  exact ⟨chunks, hcloses, haccepted, hcount fun d hd => hmodest d (hpre.subset hd)⟩

end

theorem ipsecSA_closesExactly : ClosesExactly ipsecSABody := by
  refine closesExactly_of_length fun body items _ hitems => ?_
  unfold ipsecSABody decodeIPsecSAChunkBody at hitems
  cases hdecode : decodeNames [] body with
  | error e => simp [hdecode, Except.toOption] at hitems
  | ok names =>
    rw [hdecode] at hitems
    obtain rfl : names = items := Option.some.inj hitems
    have hlen := length_decodeNames [] body (by simp) hdecode
    unfold maxIPsecSANames at hlen
    omega

theorem dhcpLease_closesExactly : ClosesExactly decodeDHCPLeasePayload := by
  refine closesExactly_of_length fun body leases hsize hleases => ?_
  have hlen := length_decodeDHCPLeasePayload hleases
  unfold maxSyncPayload at hsize
  omega

end Xpf.ChunkSync
