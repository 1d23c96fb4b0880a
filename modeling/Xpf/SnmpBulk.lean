/-
GETBULK of the SNMP agent: `handleGetBulk`, `buildBulkVarbinds`, `trimToFit` and
`buildResponse` of `pkg/snmp/agent.go`.

A GETBULK asks for one successor of each non-repeater and for `max-repetitions`
successors of each repeater, row by row. The expansion stops as soon as what it has
produced cannot fit the response any more, and a binary search then finds how much of it
does fit. The grid is what the answer is a prefix of: it names the cell of a row and a
column without a loop, and with the successor in the view rather than the search for it.
-/
import Xpf.SnmpMib
import Mathlib.Data.List.Induction

set_option autoImplicit false

namespace Xpf.SnmpBulk

open GoStrings SnmpBer SnmpMib

def pduGetResponse : UInt8 := 0xa2
def errNoError : Int64 := 0
def errTooBig : Int64 := 1
def snmpVersion2c : Int64 := 1
def maxPacketSize : ℕ := 4096
def minMsgMaxSize : ℕ := 484

/-! ## Responses -/

/-- `buildResponseVersion`. -/
def buildResponseVersion (version : Int64) (community : Bytes) (requestID errorStatus errorIndex : Int64)
    (varbinds : List Varbind) : Bytes :=
  let pduEncoded := encodePDU pduGetResponse requestID errorStatus errorIndex (encodeVarbindList varbinds)
  let msgBody := berEncodeIntegerTLV version
  let msgBody := msgBody ++ berEncodeTLV tagOctetString community
  let msgBody := msgBody ++ pduEncoded
  berEncodeTLV tagSequence msgBody

/-- `buildResponse`. -/
def buildResponse (community : Bytes) (requestID errorStatus errorIndex : Int64) (varbinds : List Varbind) : Bytes :=
  buildResponseVersion snmpVersion2c community requestID errorStatus errorIndex varbinds

/-- `effectiveMaxSize`. -/
def effectiveMaxSize (advertised : ℕ) : ℕ :=
  let advertised := if advertised < minMsgMaxSize then minMsgMaxSize else advertised
  if advertised > maxPacketSize then maxPacketSize else advertised

/-- `trimToFit`: the response, or nothing when even an empty one does not fit. The
search carries the response of its lower end along. -/
def trimToFit (vbs : List Varbind) (maxSize : ℕ) (build : List Varbind → Bytes) : Option Bytes :=
  let full := build vbs
  if full.length ≤ maxSize then some full
  else
    let empty := build (vbs.take 0)
    if empty.length > maxSize then none
    else some (build (vbs.take (Bisect.bisect (fun mid => (build (vbs.take mid)).length ≤ maxSize) 0 vbs.length)))

/-! ## Expansion -/

/-- `varbindEncodedLen`. -/
def varbindEncodedLen (vb : Varbind) : ℕ := (encodeVarbind [] vb).length

/-- The varbinds produced so far, the `used` of `bulkBudget`, and whether the expansion
has returned. -/
structure Expansion where
  varbinds : List Varbind
  used : ℕ
  stopped : Bool

/-- Append a varbind and charge it: `bulkBudget.add`. -/
def Expansion.emit (maxBytes : ℕ) (s : Expansion) (vb : Varbind) : Expansion :=
  let used := s.used + varbindEncodedLen vb
  { varbinds := s.varbinds ++ [vb], used, stopped := used > maxBytes }

/-- The varbind that names what follows an identifier. -/
def nextVarbind (r : Reading) (ifaces : List IfData) (cursor : Oid) : Option Oid → Varbind
  | none => { oid := cursor, tag := tagEndOfMibView, value := [] }
  | some nextOID =>
    let (val, valTag) := getOIDValueSnap r ifaces nextOID
    { oid := nextOID, tag := valTag, value := val }

section

variable (readings : ℕ → Reading) (ifaces : List IfData) (maxBytes : ℕ)

/-- The loop over the non-repeaters. -/
def nonRepeatersLoop : List Oid → Expansion → Expansion
  | [], s => s
  | oid :: oids, s =>
    if s.stopped then s
    else
      nonRepeatersLoop oids
        (s.emit maxBytes (nextVarbind (readings s.varbinds.length) ifaces oid (findNextOIDSnap oid ifaces)))

/-- `cursors[c]` and `exhausted[c]`. -/
structure Column where
  cursor : Oid
  exhausted : Bool

/-- One cell: the varbind, and the column behind it. -/
def bulkCell (r : Reading) (col : Column) : Varbind × Column :=
  let nextOID := if col.exhausted then none else findNextOIDSnap col.cursor ifaces
  if col.exhausted then (nextVarbind r ifaces col.cursor none, col)
  else
    match nextOID with
    | none => (nextVarbind r ifaces col.cursor none, { col with exhausted := true })
    | some next => (nextVarbind r ifaces col.cursor (some next), { col with cursor := next })

/-- One repetition: the loop over the columns. -/
def rowLoop : List Column → Expansion → List Column × Expansion
  | [], s => ([], s)
  | col :: cols, s =>
    if s.stopped then (col :: cols, s)
    else
      let (vb, col) := bulkCell ifaces (readings s.varbinds.length) col
      let (cols, s) := rowLoop cols (s.emit maxBytes vb)
      (col :: cols, s)

/-- The loop over the repetitions. -/
def repetitionsLoop : ℕ → List Column → Expansion → Expansion
  | 0, _, s => s
  | maxRepetitions + 1, cols, s =>
    if s.stopped then s
    else
      let (cols, s) := rowLoop readings ifaces maxBytes cols s
      repetitionsLoop maxRepetitions cols s

/-- `buildBulkVarbinds`. -/
def buildBulkVarbinds (oids : List Oid) (nonRepeaters maxRepetitions : ℕ) : List Varbind :=
  let s := nonRepeatersLoop readings ifaces maxBytes (oids.take nonRepeaters) { varbinds := [], used := 0, stopped := false }
  let repeaters := oids.drop nonRepeaters
  if s.stopped ∨ repeaters = [] ∨ maxRepetitions = 0 then s.varbinds
  else
    (repetitionsLoop readings ifaces maxBytes maxRepetitions
      (repeaters.map fun oid => { cursor := oid, exhausted := false }) s).varbinds

end

/-- The end of `handleGetBulk`: the response to a list of varbinds. -/
def bulkResponse (community : Bytes) (requestID : Int64) (maxSize : ℕ) (varbinds : List Varbind) : Bytes :=
  match trimToFit varbinds maxSize fun vbs => buildResponse community requestID errNoError 0 vbs with
  | none => buildResponse community requestID errTooBig 0 []
  | some resp => resp

/-- The clamps of `handleGetBulk`. -/
def clampNonRepeaters (nonRepeaters : Int64) : ℕ := (if nonRepeaters < 0 then 0 else nonRepeaters).toInt.toNat

def clampMaxRepetitions (maxRepetitions : Int64) : ℕ :=
  let maxRepetitions := if maxRepetitions < 0 then 0 else maxRepetitions
  (if maxRepetitions > 100 then 100 else maxRepetitions).toInt.toNat

/-- `handleGetBulk`: no response to a PDU that cannot be decoded. -/
def handleGetBulk (readings : ℕ → Reading) (ifaces : List IfData) (community pduBody : Bytes) : Option Bytes :=
  match decodePDUFields pduBody with
  | .error _ => none
  | .ok (requestID, nonRepeaters, maxRepetitions, oids) =>
    let maxSize := effectiveMaxSize maxPacketSize
    let varbinds := buildBulkVarbinds readings ifaces maxSize oids (clampNonRepeaters nonRepeaters)
      (clampMaxRepetitions maxRepetitions)
    some (bulkResponse community requestID maxSize varbinds)

/-! ## The grid -/

section

variable (ifaces : List IfData)

/-- Where a column stands after some repetitions: a column that has ended stays. -/
noncomputable def cursorAfter (oid : Oid) : ℕ → Oid
  | 0 => oid
  | rep + 1 => (successor ifaces (cursorAfter oid rep)).getD (cursorAfter oid rep)

/-- What the cells of a response are about: one successor for each of the first
identifiers, then row by row one step of each of the others. -/
noncomputable def bulkCursors (oids : List Oid) (nonRepeaters maxRepetitions : ℕ) : List Oid :=
  oids.take nonRepeaters
    ++ (List.range maxRepetitions).flatMap fun rep => (oids.drop nonRepeaters).map fun oid => cursorAfter ifaces oid rep

/-- **The grid**: each cell holds the successor of its cursor with its value, and
`endOfMibView` under the cursor's own name when there is none. -/
noncomputable def bulkGrid (readings : ℕ → Reading) (oids : List Oid) (nonRepeaters maxRepetitions : ℕ) : List Varbind :=
  (bulkCursors ifaces oids nonRepeaters maxRepetitions).mapIdx fun i cursor =>
    nextVarbind (readings i) ifaces cursor (successor ifaces cursor)

end

/-! ## The expansion is a prefix of the grid -/

section

variable (readings : ℕ → Reading) (ifaces : List IfData)

/-- The cells of some cursors, from a position of the response on. -/
noncomputable def cellsAt (start : ℕ) (cursors : List Oid) : List Varbind :=
  cursors.mapIdx fun i cursor => nextVarbind (readings (start + i)) ifaces cursor (successor ifaces cursor)

theorem cellsAt_nil (start : ℕ) : cellsAt readings ifaces start [] = [] := rfl

theorem cellsAt_cons (start : ℕ) (cursor : Oid) (cursors : List Oid) :
    cellsAt readings ifaces start (cursor :: cursors)
      = nextVarbind (readings start) ifaces cursor (successor ifaces cursor)
        :: cellsAt readings ifaces (start + 1) cursors := by
  simp only [cellsAt, List.mapIdx_cons, Nat.add_zero, Nat.add_assoc, Nat.add_comm 1]

theorem cellsAt_append (start : ℕ) (front back : List Oid) :
    cellsAt readings ifaces start (front ++ back)
      = cellsAt readings ifaces start front ++ cellsAt readings ifaces (start + front.length) back := by
  simp only [cellsAt, List.mapIdx_append, Nat.add_assoc, Nat.add_comm front.length]

theorem length_cellsAt (start : ℕ) (cursors : List Oid) :
    (cellsAt readings ifaces start cursors).length = cursors.length := List.length_mapIdx

/-- The budget has been charged for every varbind, and an expansion that has stopped is
past it. -/
structure Charged (maxBytes : ℕ) (s : Expansion) : Prop where
  used : s.used = (s.varbinds.map varbindEncodedLen).sum
  past : s.stopped = true → maxBytes < s.used

/-- An expansion over some cursors: it appends a front part of their cells, all of them
unless it has stopped, and charges them. -/
structure Produces (maxBytes : ℕ) (cursors : List Oid) (s s' : Expansion) : Prop where
  cells : ∃ k, s'.varbinds = s.varbinds ++ (cellsAt readings ifaces s.varbinds.length cursors).take k
    ∧ (s'.stopped = false → cursors.length ≤ k)
  charged : Charged maxBytes s → Charged maxBytes s'

variable {readings ifaces} {maxBytes : ℕ}

theorem Produces.stopped (cursors : List Oid) {s : Expansion} (h : s.stopped = true) :
    Produces readings ifaces maxBytes cursors s s := by
  refine ⟨⟨0, by rw [List.take_zero, List.append_nil], fun hstopped => ?_⟩, id⟩
  rw [h] at hstopped
  cases hstopped

theorem Produces.none (s : Expansion) : Produces readings ifaces maxBytes [] s s :=
  ⟨⟨0, by rw [List.take_zero, List.append_nil], fun _ => Nat.le_refl 0⟩, id⟩

/-- What an expansion that has not stopped has produced. -/
theorem Produces.all {cursors : List Oid} {s s' : Expansion} (h : Produces readings ifaces maxBytes cursors s s')
    (hrun : s'.stopped = false) :
    s'.varbinds = s.varbinds ++ cellsAt readings ifaces s.varbinds.length cursors := by
  obtain ⟨k, hk, hall⟩ := h.cells
  rw [hk, List.take_of_length_le]
  rw [length_cellsAt]
  exact hall hrun

/-- One expansion after the other; the second does nothing when the first has stopped. -/
theorem Produces.append {front back : List Oid} {s s' s'' : Expansion} (h : Produces readings ifaces maxBytes front s s')
    (h' : Produces readings ifaces maxBytes back s' s'') (hstop : s'.stopped = true → s'' = s') :
    Produces readings ifaces maxBytes (front ++ back) s s'' := by
  cases hrun : s'.stopped with
  | true =>
    obtain rfl := hstop hrun
    obtain ⟨k, hk, -⟩ := h.cells
    refine ⟨⟨min k front.length, ?_, fun hrun' => ?_⟩, h.charged⟩
    · have hle : min k front.length ≤ (cellsAt readings ifaces s.varbinds.length front).length := by
        rw [length_cellsAt]
        exact Nat.min_le_right _ _
      rw [hk, cellsAt_append, List.take_append_of_le_length hle, List.take_eq_take_min, length_cellsAt]
    · rw [hrun] at hrun'
      cases hrun'
  | false =>
    have hall := h.all hrun
    obtain ⟨k, hk, hrest⟩ := h'.cells
    refine ⟨⟨front.length + k, ?_, fun hrun' => ?_⟩, fun hs => h'.charged (h.charged hs)⟩
    · have hlen : s'.varbinds.length = s.varbinds.length + front.length := by
        rw [hall, List.length_append, length_cellsAt]
      rw [hk, hlen, hall, cellsAt_append, ← length_cellsAt readings ifaces s.varbinds.length front,
        List.take_length_add_append, List.append_assoc]
    · rw [List.length_append]
      have := hrest hrun'
      omega

theorem Produces.emit (s : Expansion) (cursor : Oid) :
    Produces readings ifaces maxBytes [cursor] s (s.emit maxBytes
      (nextVarbind (readings s.varbinds.length) ifaces cursor (successor ifaces cursor))) := by
  refine ⟨⟨1, ?_, fun _ => Nat.le_refl 1⟩, fun h => ⟨?_, fun hstopped => of_decide_eq_true hstopped⟩⟩
  · rw [cellsAt_cons, List.take_succ_cons, List.take_zero]
    rfl
  · show s.used + varbindEncodedLen _ = ((s.varbinds ++ [_]).map varbindEncodedLen).sum
    rw [h.used, List.map_append, List.sum_append, List.map_singleton, List.sum_singleton]

theorem produces_nonRepeatersLoop (hdistinct : (ifaces.map (·.ifIndex)).Nodup) (oids : List Oid)
    (s : Expansion) :
    Produces readings ifaces maxBytes oids s (nonRepeatersLoop readings ifaces maxBytes oids s) := by
  induction oids generalizing s with
  | nil => exact .none s
  | cons oid oids ih =>
    rw [nonRepeatersLoop]
    split_ifs with hstopped
    · exact .stopped _ hstopped
    · rw [findNextOIDSnap_eq hdistinct]
      show Produces readings ifaces maxBytes ([oid] ++ oids) s _
      refine (Produces.emit s oid).append (ih _) fun hstop => ?_
      cases oids with
      | nil => rfl
      | cons oid' oids => rw [nonRepeatersLoop, if_pos hstop]

/-- A column of the loop stands where the grid says, and it counts as exhausted only when
nothing follows. -/
structure ColumnAt (ifaces : List IfData) (rep : ℕ) (oid : Oid) (col : Column) : Prop where
  cursor : col.cursor = cursorAfter ifaces oid rep
  ended : col.exhausted = true → successor ifaces col.cursor = Option.none

theorem ColumnAt.cell (hdistinct : (ifaces.map (·.ifIndex)).Nodup) {rep : ℕ} {oid : Oid} {col : Column}
    (h : ColumnAt ifaces rep oid col) (r : Reading) :
    (bulkCell ifaces r col).1
        = nextVarbind r ifaces (cursorAfter ifaces oid rep) (successor ifaces (cursorAfter ifaces oid rep))
      ∧ ColumnAt ifaces (rep + 1) oid (bulkCell ifaces r col).2 := by
  obtain ⟨hcursor, hended⟩ := h
  rw [← hcursor, bulkCell]
  have hnext : cursorAfter ifaces oid (rep + 1) = (successor ifaces col.cursor).getD col.cursor := by
    rw [cursorAfter, ← hcursor]
  split_ifs with hex
  · rw [hended hex] at hnext ⊢
    exact ⟨rfl, hnext.symm, fun _ => hended hex⟩
  · rw [findNextOIDSnap_eq hdistinct]
    cases hsucc : successor ifaces col.cursor with
    | none =>
      rw [hsucc] at hnext
      exact ⟨rfl, hnext.symm, fun _ => hsucc⟩
    | some next =>
      rw [hsucc] at hnext
      exact ⟨rfl, hnext.symm, fun h => absurd h hex⟩

/-- **One repetition** appends the row of the grid and takes every column one step on. -/
theorem produces_rowLoop (hdistinct : (ifaces.map (·.ifIndex)).Nodup) {rep : ℕ} {oids : List Oid}
    {cols : List Column} (h : List.Forall₂ (ColumnAt ifaces rep) oids cols) (s : Expansion) :
    Produces readings ifaces maxBytes (oids.map fun oid => cursorAfter ifaces oid rep) s
        (rowLoop readings ifaces maxBytes cols s).2
      ∧ (s.stopped = true → (rowLoop readings ifaces maxBytes cols s).2 = s)
      ∧ ((rowLoop readings ifaces maxBytes cols s).2.stopped = false →
        List.Forall₂ (ColumnAt ifaces (rep + 1)) oids (rowLoop readings ifaces maxBytes cols s).1) := by
  induction h generalizing s with
  | nil => exact ⟨.none s, fun _ => rfl, fun _ => .nil⟩
  | @cons oid col oids cols hcol _ ih =>
    rw [rowLoop]
    split_ifs with hstopped
    · refine ⟨.stopped _ hstopped, fun _ => rfl, fun hrun => ?_⟩
      rw [hstopped] at hrun
      cases hrun
    · obtain ⟨hcell, hcol'⟩ := hcol.cell hdistinct (readings s.varbinds.length)
      obtain ⟨hrow, hstop, hcols⟩ := ih (s.emit maxBytes (bulkCell ifaces (readings s.varbinds.length) col).1)
      refine ⟨?_, fun h => absurd h hstopped, fun hrun => .cons hcol' (hcols hrun)⟩
      show Produces readings ifaces maxBytes ([cursorAfter ifaces oid rep] ++ oids.map fun oid => cursorAfter ifaces oid rep) s
        (rowLoop readings ifaces maxBytes cols
          (s.emit maxBytes (bulkCell ifaces (readings s.varbinds.length) col).1)).2
      rw [hcell] at hrow hstop ⊢
      exact (Produces.emit s _).append hrow hstop

theorem produces_repetitionsLoop (hdistinct : (ifaces.map (·.ifIndex)).Nodup) {oids : List Oid}
    (maxRepetitions : ℕ) {rep : ℕ} {cols : List Column} (h : List.Forall₂ (ColumnAt ifaces rep) oids cols)
    (s : Expansion) :
    Produces readings ifaces maxBytes
      ((List.range' rep maxRepetitions).flatMap fun rep => oids.map fun oid => cursorAfter ifaces oid rep) s
      (repetitionsLoop readings ifaces maxBytes maxRepetitions cols s) := by
  induction maxRepetitions generalizing rep cols s with
  | zero => exact .none s
  | succ maxRepetitions ih =>
    rw [repetitionsLoop]
    split_ifs with hstopped
    · exact .stopped _ hstopped
    · obtain ⟨hrow, -, hcols⟩ := produces_rowLoop hdistinct h s
      rw [List.range'_succ, List.flatMap_cons]
      cases hrun : (rowLoop readings ifaces maxBytes cols s).2.stopped with
      | false =>
        refine hrow.append (ih (hcols hrun) _) fun hstop => ?_
        rw [hrun] at hstop
        cases hstop
      | true =>
        have hdone : repetitionsLoop readings ifaces maxBytes maxRepetitions
            (rowLoop readings ifaces maxBytes cols s).1 (rowLoop readings ifaces maxBytes cols s).2
            = (rowLoop readings ifaces maxBytes cols s).2 := by
          cases maxRepetitions with
          | zero => rfl
          | succ k => rw [repetitionsLoop, if_pos hrun]
        dsimp only
        rw [hdone]
        exact hrow.append (.stopped _ hrun) fun _ => rfl

end

/-- **The expansion** is the grid, or a front part of it that is past the budget. -/
theorem buildBulkVarbinds_prefix (readings : ℕ → Reading) {ifaces : List IfData}
    (hdistinct : (ifaces.map (·.ifIndex)).Nodup) (maxBytes : ℕ) (oids : List Oid) (nonRepeaters maxRepetitions : ℕ) :
    ∃ k, buildBulkVarbinds readings ifaces maxBytes oids nonRepeaters maxRepetitions
        = (bulkGrid ifaces readings oids nonRepeaters maxRepetitions).take k
      ∧ (k < (bulkGrid ifaces readings oids nonRepeaters maxRepetitions).length →
        maxBytes < (((bulkGrid ifaces readings oids nonRepeaters maxRepetitions).take k).map varbindEncodedLen).sum) := by
  have hgrid : bulkGrid ifaces readings oids nonRepeaters maxRepetitions
      = cellsAt readings ifaces 0 (bulkCursors ifaces oids nonRepeaters maxRepetitions) := by
    simp only [bulkGrid, cellsAt, Nat.zero_add]
  -- from an expansion of all the cursors the two facts are read off
  have hread : ∀ s', Produces readings ifaces maxBytes (bulkCursors ifaces oids nonRepeaters maxRepetitions)
      ⟨[], 0, false⟩ s' → ∃ k, s'.varbinds = (bulkGrid ifaces readings oids nonRepeaters maxRepetitions).take k
      ∧ (k < (bulkGrid ifaces readings oids nonRepeaters maxRepetitions).length → maxBytes
        < (((bulkGrid ifaces readings oids nonRepeaters maxRepetitions).take k).map varbindEncodedLen).sum) := by
    rintro s' ⟨⟨k, hk, hall⟩, hcharged⟩
    rw [List.nil_append, List.length_nil, ← hgrid] at hk
    refine ⟨k, hk, fun hlt => ?_⟩
    have hs' := hcharged ⟨rfl, fun h => Bool.noConfusion h⟩
    rw [← hk, ← hs'.used]
    apply hs'.past
    by_contra hrun
    have hle := hall (Bool.not_eq_true _ |>.mp hrun)
    rw [hgrid, length_cellsAt] at hlt
    omega
  have hfirst : Produces readings ifaces maxBytes (oids.take nonRepeaters) ⟨[], 0, false⟩
      (nonRepeatersLoop readings ifaces maxBytes (oids.take nonRepeaters) ⟨[], 0, false⟩) :=
    produces_nonRepeatersLoop hdistinct _ _
  rw [buildBulkVarbinds]
  generalize nonRepeatersLoop readings ifaces maxBytes (oids.take nonRepeaters) ⟨[], 0, false⟩ = s at hfirst ⊢
  rw [bulkCursors] at hread
  split_ifs with hdone
  · apply hread
    by_cases hstopped : s.stopped = true
    · exact hfirst.append (.stopped _ hstopped) fun _ => rfl
    · have hnil : ((List.range maxRepetitions).flatMap fun rep =>
          (oids.drop nonRepeaters).map fun oid => cursorAfter ifaces oid rep) = [] := by
        rcases hdone with hstop | hnone | hzero
        · exact absurd hstop hstopped
        · simp only [hnone, List.map_nil, List.flatMap_eq_nil_iff, implies_true]
        · rw [hzero, List.range_zero, List.flatMap_nil]
      rw [hnil]
      exact hfirst.append (.none s) fun _ => rfl
  · apply hread
    rw [List.range_eq_range']
    refine hfirst.append (produces_repetitionsLoop hdistinct maxRepetitions ?_ s) fun hstop => ?_
    · rw [List.forall₂_map_right_iff]
      exact List.forall₂_same.mpr fun oid _ => ⟨rfl, fun h => Bool.noConfusion h⟩
    · exact absurd (.inl hstop) hdone

/-! ## The size of a response -/

theorem length_berEncodeLength_mono {m n : ℕ} (h : m ≤ n) :
    (berEncodeLength m).length ≤ (berEncodeLength n).length := by
  have hlong : ∀ k, (octets k).length = (Positional.bigEndian 8 k).length := fun k => List.length_map _
  rw [berEncodeLength, berEncodeLength]
  split_ifs with hm hn hn
  · exact Nat.le_refl _
  · exact Nat.succ_le_succ (Nat.zero_le _)
  · omega
  · rw [List.length_cons, List.length_cons, hlong, hlong]
    exact Nat.succ_le_succ (Positional.length_bigEndian_mono (by decide) h)

theorem length_berEncodeTLV_mono {tag tag' : UInt8} {value value' : Bytes} (h : value.length ≤ value'.length) :
    (berEncodeTLV tag value).length ≤ (berEncodeTLV tag' value').length := by
  rw [length_berEncodeTLV, length_berEncodeTLV]
  have := length_berEncodeLength_mono h
  omega

theorem length_le_berEncodeTLV (tag : UInt8) (value : Bytes) : value.length ≤ (berEncodeTLV tag value).length := by
  rw [length_berEncodeTLV]
  omega

/-- The octets of the varbinds of a list. -/
def listLen (vbs : List Varbind) : ℕ := (vbs.map varbindEncodedLen).sum

theorem length_foldl_encodeVarbind (vbs : List Varbind) : (vbs.foldl encodeVarbind []).length = listLen vbs := by
  have hone : ∀ vb, varbindEncodedLen vb = (berEncodeTLV tagSequence (varbindBody vb)).length := by
    intro vb
    rw [varbindEncodedLen, encodeVarbind_eq, List.nil_append]
  rw [foldl_encodeVarbind, List.nil_append, List.length_flatMap, listLen, List.map_congr_left fun vb _ => hone vb]

theorem listLen_take_mono (vbs : List Varbind) {i j : ℕ} (h : i ≤ j) : listLen (vbs.take i) ≤ listLen (vbs.take j) := by
  have hsub : ((vbs.take i).map varbindEncodedLen).Sublist ((vbs.take j).map varbindEncodedLen) :=
    (List.take_sublist_take_left h).map _
  exact hsub.sum_le_sum fun _ _ => Nat.zero_le _

/-- **The size of a response** goes up with its varbinds, -/
theorem length_buildResponse_mono (community : Bytes) (requestID errorStatus errorIndex : Int64)
    {vbs vbs' : List Varbind} (h : listLen vbs ≤ listLen vbs') :
    (buildResponse community requestID errorStatus errorIndex vbs).length
      ≤ (buildResponse community requestID errorStatus errorIndex vbs').length := by
  have hlist : (encodeVarbindList vbs).length ≤ (encodeVarbindList vbs').length := by
    apply length_berEncodeTLV_mono
    rw [length_foldl_encodeVarbind, length_foldl_encodeVarbind]
    exact h
  have happend : ∀ {a b b' : Bytes}, b.length ≤ b'.length → (a ++ b).length ≤ (a ++ b').length := by
    intro a b b' hle
    simp only [List.length_append]
    omega
  apply length_berEncodeTLV_mono
  apply happend
  apply length_berEncodeTLV_mono
  exact happend hlist

/-- and is at least theirs. -/
theorem listLen_le_length_buildResponse (community : Bytes) (requestID errorStatus errorIndex : Int64)
    (vbs : List Varbind) :
    listLen vbs ≤ (buildResponse community requestID errorStatus errorIndex vbs).length := by
  calc listLen vbs = (vbs.foldl encodeVarbind []).length := (length_foldl_encodeVarbind vbs).symm
    _ ≤ (encodeVarbindList vbs).length := length_le_berEncodeTLV _ _
    _ ≤ (berEncodeIntegerTLV requestID ++ berEncodeIntegerTLV errorStatus ++ berEncodeIntegerTLV errorIndex
        ++ encodeVarbindList vbs).length := by
      rw [List.length_append]
      exact Nat.le_add_left _ _
    _ ≤ (encodePDU pduGetResponse requestID errorStatus errorIndex (encodeVarbindList vbs)).length :=
      length_le_berEncodeTLV _ _
    _ ≤ (berEncodeIntegerTLV snmpVersion2c ++ berEncodeTLV tagOctetString community
        ++ encodePDU pduGetResponse requestID errorStatus errorIndex (encodeVarbindList vbs)).length := by
      rw [List.length_append]
      exact Nat.le_add_left _ _
    _ ≤ (buildResponse community requestID errorStatus errorIndex vbs).length := length_le_berEncodeTLV _ _

/-! ## Trimming -/

/-- How much of a list of varbinds fits: the response to the first `k` fits, and no
longer one does. -/
structure LongestFit (build : List Varbind → Bytes) (maxSize : ℕ) (vbs : List Varbind) (k : ℕ) : Prop where
  le : k ≤ vbs.length
  fits : (build (vbs.take k)).length ≤ maxSize
  longest : ∀ j ≤ vbs.length, (build (vbs.take j)).length ≤ maxSize → j ≤ k

section

variable {build : List Varbind → Bytes} {maxSize : ℕ} {vbs : List Varbind}

theorem LongestFit.unique {k k' : ℕ} (h : LongestFit build maxSize vbs k) (h' : LongestFit build maxSize vbs k') :
    k = k' := Nat.le_antisymm (h'.longest k h.le h.fits) (h.longest k' h'.le h'.fits)

/-- **The binary search finds the longest front part that fits**, when the size of a
response goes up with its varbinds. -/
theorem trimToFit_longest (hmono : ∀ i j, i ≤ j → (build (vbs.take i)).length ≤ (build (vbs.take j)).length)
    (hempty : (build []).length ≤ maxSize) :
    ∃ k, LongestFit build maxSize vbs k ∧ trimToFit vbs maxSize build = some (build (vbs.take k)) := by
  rw [trimToFit]
  by_cases hfull : (build vbs).length ≤ maxSize
  · rw [if_pos hfull]
    refine ⟨vbs.length, ⟨Nat.le_refl _, ?_, fun j hj _ => hj⟩, ?_⟩
    · rw [List.take_length]
      exact hfull
    · rw [List.take_length]
  · rw [if_neg hfull]
    dsimp only
    rw [List.take_zero, if_neg (Nat.not_lt.mpr hempty)]
    have hpos : 0 < vbs.length := by
      rcases Nat.eq_zero_or_pos vbs.length with hzero | hpos
      · rw [List.length_eq_zero_iff.mp hzero] at hfull
        exact absurd hempty hfull
      · exact hpos
    obtain ⟨hlt, hfits, hnext⟩ := Bisect.bisect_spec (p := fun mid => (build (vbs.take mid)).length ≤ maxSize) hpos
      (decide_eq_true hempty) (decide_eq_false (by rw [List.take_length]; exact hfull))
    refine ⟨_, ⟨Nat.le_of_lt hlt, of_decide_eq_true hfits, fun j _ hj => ?_⟩, rfl⟩
    by_contra hgt
    exact of_decide_eq_false hnext (Nat.le_trans (hmono _ j (by omega)) hj)

theorem trimToFit_none (hmono : ∀ i j, i ≤ j → (build (vbs.take i)).length ≤ (build (vbs.take j)).length)
    (hempty : maxSize < (build []).length) : trimToFit vbs maxSize build = none := by
  have hfull := hmono 0 vbs.length (Nat.zero_le _)
  rw [List.take_length, List.take_zero] at hfull
  rw [trimToFit, if_neg (by omega)]
  exact if_pos hempty

end

/-- **Stopping early changes nothing**: a front part of the varbinds that is past the size
already gives the response of them all. -/
theorem bulkResponse_take (community : Bytes) (requestID : Int64) {maxSize k : ℕ} {vbs : List Varbind}
    (h : k < vbs.length → maxSize < listLen (vbs.take k)) :
    bulkResponse community requestID maxSize (vbs.take k) = bulkResponse community requestID maxSize vbs := by
  have hmono : ∀ (l : List Varbind) i j, i ≤ j → (buildResponse community requestID errNoError 0 (l.take i)).length
      ≤ (buildResponse community requestID errNoError 0 (l.take j)).length :=
    fun l i j hij => length_buildResponse_mono _ _ _ _ (listLen_take_mono l hij)
  rcases Nat.lt_or_ge k vbs.length with hk | hk
  · have htrim : trimToFit (vbs.take k) maxSize (fun vbs => buildResponse community requestID errNoError 0 vbs)
        = trimToFit vbs maxSize fun vbs => buildResponse community requestID errNoError 0 vbs := by
      rcases Nat.lt_or_ge maxSize (buildResponse community requestID errNoError 0 []).length with hempty | hempty
      · rw [trimToFit_none (hmono _) hempty, trimToFit_none (hmono _) hempty]
      · obtain ⟨i, hi, htake⟩ := trimToFit_longest (hmono (vbs.take k)) hempty
        obtain ⟨j, hj, hall⟩ := trimToFit_longest (hmono vbs) hempty
        -- what fits of the whole ends in front of `k`, so it is what fits of the front part
        have hjk : j < k := by
          by_contra hkj
          have hsize := Nat.le_trans (listLen_take_mono vbs (Nat.not_lt.mp hkj))
            (listLen_le_length_buildResponse community requestID errNoError 0 _)
          have := hj.fits
          have := h hk
          omega
        have hsame : ∀ n ≤ k, (vbs.take k).take n = vbs.take n := by
          intro n hn
          rw [List.take_take, Nat.min_eq_left hn]
        have hlen : (vbs.take k).length = k := by
          rw [List.length_take]
          omega
        have hik : i ≤ k := by
          rw [← hlen]
          exact hi.le
        have hij : i = j := by
          apply hi.unique
          refine ⟨by omega, ?_, fun n hn hfits => ?_⟩
          · rw [hsame j (by omega)]
            exact hj.fits
          · rw [hlen] at hn
            rw [hsame n hn] at hfits
            exact hj.longest n (by omega) hfits
        rw [htake, hall, hsame i hik, hij]
    rw [bulkResponse, bulkResponse, htrim]
  · rw [List.take_of_length_le hk]

theorem effectiveMaxSize_max : effectiveMaxSize maxPacketSize = maxPacketSize := by decide

theorem clampNonRepeaters_eq (nonRepeaters : Int64) :
    clampNonRepeaters nonRepeaters = nonRepeaters.toInt.toNat := by
  rw [clampNonRepeaters]
  split_ifs with hneg
  · have hlt : nonRepeaters.toInt < 0 := Int64.lt_iff_toInt_lt.mp hneg
    rw [Int.toNat_of_nonpos (Int.le_of_lt hlt)]
    rfl
  · rfl

theorem clampMaxRepetitions_eq (maxRepetitions : Int64) :
    clampMaxRepetitions maxRepetitions = min 100 maxRepetitions.toInt.toNat := by
  have hcut : (if (if maxRepetitions < 0 then 0 else maxRepetitions) > 100 then 100
      else if maxRepetitions < 0 then 0 else maxRepetitions).toInt = min 100 (max 0 maxRepetitions.toInt) := by
    have hneg : maxRepetitions < 0 ↔ maxRepetitions.toInt < 0 := Int64.lt_iff_toInt_lt
    have hcap : maxRepetitions > 100 ↔ maxRepetitions.toInt > 100 := Int64.lt_iff_toInt_lt
    split_ifs with h₁ h₂ h₃
    · exact absurd h₂ (by decide)
    · have := hneg.mp h₁
      show (0 : ℤ) = _
      omega
    · have := hcap.mp h₃
      show (100 : ℤ) = _
      omega
    · have := mt hneg.mpr h₁
      have := mt hcap.mpr h₃
      omega
  rw [clampMaxRepetitions, hcut]
  omega

/-- The response is the one of the whole grid, with max-repetitions cut to a hundred. -/
theorem handleGetBulk_eq {ifaces : List IfData} (hdistinct : (ifaces.map (·.ifIndex)).Nodup)
    (readings : ℕ → Reading) (community : Bytes) {pduBody : Bytes} {requestID nonRepeaters maxRepetitions : Int64}
    {oids : List Oid} (hdecode : decodePDUFields pduBody = .ok (requestID, nonRepeaters, maxRepetitions, oids)) :
    handleGetBulk readings ifaces community pduBody = some (bulkResponse community requestID maxPacketSize
      (bulkGrid ifaces readings oids nonRepeaters.toInt.toNat (min 100 maxRepetitions.toInt.toNat))) := by
  obtain ⟨k, hk, hpast⟩ := buildBulkVarbinds_prefix readings hdistinct maxPacketSize oids
    nonRepeaters.toInt.toNat (min 100 maxRepetitions.toInt.toNat)
  rw [handleGetBulk, hdecode, effectiveMaxSize_max]
  dsimp only
  rw [clampNonRepeaters_eq, clampMaxRepetitions_eq, hk, bulkResponse_take community requestID hpast]

/-- **A GETBULK response is the longest front part of the grid that fits**, with
max-repetitions cut to a hundred; when not even an empty response fits it is `tooBig`
without varbinds. Stopping the expansion at the budget changes nothing of it. -/
theorem handleGetBulk_longest {ifaces : List IfData} (hdistinct : (ifaces.map (·.ifIndex)).Nodup)
    (readings : ℕ → Reading) (community pduBody : Bytes) {requestID nonRepeaters maxRepetitions : Int64}
    {oids : List Oid} (hdecode : decodePDUFields pduBody = .ok (requestID, nonRepeaters, maxRepetitions, oids)) :
    let grid := bulkGrid ifaces readings oids nonRepeaters.toInt.toNat (min 100 maxRepetitions.toInt.toNat)
    let build := fun vbs => buildResponse community requestID errNoError 0 vbs
    ((build []).length ≤ maxPacketSize → ∃ k, LongestFit build maxPacketSize grid k
        ∧ handleGetBulk readings ifaces community pduBody = some (build (grid.take k)))
      ∧ (maxPacketSize < (build []).length →
        handleGetBulk readings ifaces community pduBody = some (buildResponse community requestID errTooBig 0 []))
      ∧ handleGetBulk readings ifaces community pduBody = some (bulkResponse community requestID maxPacketSize grid) := by
  intro grid build
  have hwhole := handleGetBulk_eq hdistinct readings community hdecode
  have hmono : ∀ i j, i ≤ j → (build (grid.take i)).length ≤ (build (grid.take j)).length :=
    fun i j hij => length_buildResponse_mono _ _ _ _ (listLen_take_mono grid hij)
  refine ⟨fun hempty => ?_, fun hempty => ?_, hwhole⟩
  · obtain ⟨k, hk, htrim⟩ := trimToFit_longest hmono hempty
    refine ⟨k, hk, ?_⟩
    rw [hwhole, bulkResponse, htrim]
  · rw [hwhole, bulkResponse, trimToFit_none hmono hempty]

/-- An interface with an index and nothing counted. -/
def idleInterface (ifIndex : Int64) : IfData where
  ifIndex := ifIndex
  ifDescr := bytes "ge-0/0/0"
  ifType := 6
  ifMtu := 1500
  ifSpeed := 1000000000
  adminStatus := 1
  operStatus := 1
  inOctets := 0
  outOctets := 0
  lastChange := 0
  inUcastPkts := 0
  inNonUcastPkts := 0
  inErrors := 0
  inDiscards := 0
  inUnknownProtos := 0
  outUcastPkts := 0
  outNonUcastPkts := 0
  outErrors := 0
  outDiscards := 0
  ifName := []
  inMulticastPkts := 0
  inBroadcastPkts := 0
  outMulticastPkts := 0
  outBroadcastPkts := 0
  hcInOctets := 0
  hcInUcastPkts := 0
  hcOutOctets := 0
  hcOutUcastPkts := 0
  ifHighSpeed := 1000
  ifAlias := []

/-- A walk of `ifIndex` over two interfaces, listed out of order. -/
theorem handleGetBulk_longest_twoInterfaces : ∃ k,
    LongestFit (fun vbs => buildResponse (bytes "public") 1 errNoError 0 vbs) maxPacketSize
        (bulkGrid [idleInterface 2, idleInterface 1] (fun _ => ⟨none, none, 0⟩) [[1, 3, 6, 1, 2, 1, 2, 2, 1, 1]] 0 2) k
      ∧ handleGetBulk (fun _ => ⟨none, none, 0⟩) [idleInterface 2, idleInterface 1] (bytes "public")
          [0x02, 1, 1, 0x02, 1, 0, 0x02, 1, 2, 0x30, 15, 0x30, 13, 0x06, 9, 43, 6, 1, 2, 1, 2, 2, 1, 1, 5, 0]
        = some (buildResponse (bytes "public") 1 errNoError 0
          ((bulkGrid [idleInterface 2, idleInterface 1] (fun _ => ⟨none, none, 0⟩) [[1, 3, 6, 1, 2, 1, 2, 2, 1, 1]]
            0 2).take k)) :=
  have hdistinct : ([idleInterface 2, idleInterface 1].map (·.ifIndex)).Nodup := by decide
  have hdecode : decodePDUFields
      [0x02, 1, 1, 0x02, 1, 0, 0x02, 1, 2, 0x30, 15, 0x30, 13, 0x06, 9, 43, 6, 1, 2, 1, 2, 2, 1, 1, 5, 0]
      = .ok (1, 0, 2, [[1, 3, 6, 1, 2, 1, 2, 2, 1, 1]]) := by decide
  (handleGetBulk_longest hdistinct (fun _ => ⟨none, none, 0⟩) (bytes "public") _ hdecode).1 (by decide)

theorem cursorAfter_ended {ifaces : List IfData} {oid : Oid} (h : successor ifaces oid = none) (rep : ℕ) :
    cursorAfter ifaces oid rep = oid := by
  induction rep with
  | zero => rfl
  | succ rep ih => rw [cursorAfter, ih, h, Option.getD_none]

/-- The grid of one repeater that has nothing behind it. -/
theorem bulkGrid_ended {ifaces : List IfData} {oid : Oid} (h : successor ifaces oid = none)
    (readings : ℕ → Reading) (maxRepetitions : ℕ) :
    bulkGrid ifaces readings [oid] 0 maxRepetitions = List.replicate maxRepetitions ⟨oid, tagEndOfMibView, []⟩ := by
  rw [List.eq_replicate_iff, bulkGrid]
  constructor
  · rw [List.length_mapIdx, bulkCursors, List.take_zero, List.nil_append, List.length_flatMap]
    simp
  · intro vb hvb
    obtain ⟨i, hi, rfl⟩ := List.mem_mapIdx.mp hvb
    have hall : ∀ cursor ∈ bulkCursors ifaces [oid] 0 maxRepetitions, cursor = oid := by
      intro cursor hmem
      simp only [bulkCursors, List.take_zero, List.nil_append, List.drop_zero, List.map_cons, List.map_nil,
        cursorAfter_ended h, List.mem_flatMap, List.mem_singleton] at hmem
      obtain ⟨-, -, hmem⟩ := hmem
      exact hmem
    have hcursor := hall _ (List.getElem_mem hi)
    rw [hcursor, h]
    rfl

/-- A manager asks for a hundred and fifty repetitions of `2.0`, behind which there is
nothing. -/
def hundredAndFifty : Bytes := [0x02, 1, 1, 0x02, 1, 0, 0x02, 2, 0, 150, 0x30, 7, 0x30, 5, 0x06, 1, 80, 5, 0]

/-- The response has a hundred varbinds, and the whole grid would have fitted. -/
theorem handleGetBulk_capped : ¬ ∃ k,
    LongestFit (fun vbs => buildResponse (bytes "public") 1 errNoError 0 vbs) maxPacketSize
        (bulkGrid [] (fun _ => ⟨none, none, 0⟩) [[2, 0]] 0 150) k
      ∧ handleGetBulk (fun _ => ⟨none, none, 0⟩) [] (bytes "public") hundredAndFifty
        = some (buildResponse (bytes "public") 1 errNoError 0
          ((bulkGrid [] (fun _ => ⟨none, none, 0⟩) [[2, 0]] 0 150).take k)) := by
  rintro ⟨k, hfit, hresponse⟩
  have hdistinct : (([] : List IfData).map (·.ifIndex)).Nodup := List.nodup_nil
  have hended : successor [] [2, 0] = none := by
    rw [← findNextOIDSnap_eq hdistinct]
    decide
  rw [bulkGrid_ended hended] at hfit hresponse
  have hk : k = 150 := by
    apply Nat.le_antisymm
    · exact hfit.le
    · exact hfit.longest 150 (Nat.le_refl _) (by decide +kernel)
  have hdecode : decodePDUFields hundredAndFifty = .ok (1, 0, 150, [[2, 0]]) := by decide
  rw [handleGetBulk_eq hdistinct _ _ hdecode] at hresponse
  change some (bulkResponse _ _ _ (bulkGrid [] _ _ 0 100)) = _ at hresponse
  rw [bulkGrid_ended hended, bulkResponse, trimToFit, if_pos (by decide +kernel), hk, Option.some.injEq] at hresponse
  exact absurd (congrArg List.length hresponse) (by decide +kernel)

end Xpf.SnmpBulk
