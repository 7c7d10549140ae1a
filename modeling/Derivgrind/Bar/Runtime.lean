import Derivgrind.Nulgrind.ShadowMemory

/-!
# Derivgrind.Bar.Runtime

Recording mode at run time: the index layers `sm_barLo` and `sm_barHi`, the tape and the
recorded values, and the code that reads and writes them while the client runs: the dirty
helpers the instrumentation calls (`dg_bar_writeToTape_call` and the F80 helpers), the
client requests `GET_INDEX`, `SET_INDEX`, `NEW_INDEX` and `NEW_INDEX_NOACTIVITYANALYSIS`, and
the monitor commands `index`, `mark`, `fmark` and `lmark`.

A tape index is a 64-bit number kept in two halves: its lower four bytes in `sm_barLo`, its
upper four in `sm_barHi`, at the address of the value it belongs to. A value of the
instrumented code carries its index alike, as two shadow values (`Lo`, `Hi`) whose lowest
four bytes are the halves.

The shadow-map library (`dg_bar_shadowGet/Set`, and the helpers `storeShadowMemory` and
`loadShadowMemory` call) and the tape (`tapeAddStatement`, `valuesAddStatement`, in
`dg_bar_tape.c`) are not part of the repository. They are modelled from the spec: byte maps
that read back zero where unwritten, and an append-only list of entries whose indices count
from 1, with the activity pruning of `tapeAddStatement`.

Main results:
* `tapeRun_values_length` — `NEW_INDEX` requests and marking commands keep one recorded value
  per tape entry, while `dgBarWriteToTapeCall_values` shows the instrumented arithmetic
  appends entries without values;
* `IndexReader.read_eq` and `IndexWriter.storedIndex_write` — every way of reading an index
  back sees the whole 64-bit index that every way of storing one left.
-/

namespace Derivgrind

/-! ## The tape -/

/-- A tape entry: the indices of the two operands (`0` for none) and the two partial
derivatives, as the bits of the `double`s. -/
structure TapeEntry where
  index1 : Nat
  index2 : Nat
  diff1 : Nat
  diff2 : Nat
  deriving DecidableEq, Repr

/-- What recording mode keeps besides the client's state: the layers `sm_barLo` and
`sm_barHi`, the tape, and the values recorded with `--record-values` (bits of `double`s). -/
structure BarState where
  lo : ShadowMap
  hi : ShadowMap
  tape : List TapeEntry
  values : List Nat

/-- The map of a layer. -/
def BarState.layer (st : BarState) : Layer → ShadowMap
  | .lo => st.lo
  | .hi => st.hi

/-- `dg_bar_initialize` with the tape's own initialisation: two fresh maps, no entries. -/
def barInitialState : BarState := ⟨shadowInitializeMap, shadowInitializeMap, [], []⟩

/-- Modelled from the spec: `tapeAddStatement_noActivityAnalysis` appends the entry and
returns its index; indices count from `1`, in append order. -/
def tapeAddStatementNoActivityAnalysis (index1 index2 diff1 diff2 : Nat) (st : BarState) :
    Nat × BarState :=
  (st.tape.length + 1, { st with tape := st.tape ++ [⟨index1, index2, diff1, diff2⟩] })

/-- A `double` that is exactly zero, `+0.0` or `-0.0`: every bit but the sign is clear. -/
def isZeroF64 (bits : Nat) : Bool := bits % 2 ^ 63 == 0

/-- Modelled from the spec: `tapeAddStatement` returns `0` and appends nothing when both
partials are exactly zero and both operand indices are `0` (activity pruning). -/
def tapeAddStatement (index1 index2 diff1 diff2 : Nat) (st : BarState) : Nat × BarState :=
  if index1 = 0 ∧ index2 = 0 ∧ isZeroF64 diff1 ∧ isZeroF64 diff2 then (0, st)
  else tapeAddStatementNoActivityAnalysis index1 index2 diff1 diff2 st

/-- Modelled from the spec: `valuesAddStatement` appends to the recorded values. -/
def valuesAddStatement (value : Nat) (st : BarState) : BarState :=
  { st with values := st.values ++ [value] }

/-- What `tapeAddStatement` can do: return `0` and change nothing, or append the entry and
return its index. -/
theorem tapeAddStatement_cases (index1 index2 diff1 diff2 : Nat) (st : BarState) :
    tapeAddStatement index1 index2 diff1 diff2 st = (0, st) ∨
      tapeAddStatement index1 index2 diff1 diff2 st =
        tapeAddStatementNoActivityAnalysis index1 index2 diff1 diff2 st := by
  unfold tapeAddStatement
  split_ifs
  · exact .inl rfl
  · exact .inr rfl

/-! ## The index layers -/

/-- Modelled from the spec: `dg_bar_shadowSet(addr, lo, hi, size)` copies the `size` bytes
of each source buffer to its layer at `addr`; a `NULL` buffer (`none`) leaves its layer
alone. -/
def dgBarShadowSet (st : BarState) (addr : Addr) (lo hi : Option (List UInt8)) : BarState :=
  { st with lo := lo.elim st.lo (writeBytes st.lo addr),
            hi := hi.elim st.hi (writeBytes st.hi addr) }

/-- Modelled from the spec: `dg_bar_shadowGet(addr, lo, hi, size)`: the `size` bytes of each
layer at `addr`, for the two destination buffers. -/
def dgBarShadowGet (st : BarState) (addr : Addr) (size : Nat) : List UInt8 × List UInt8 :=
  (readBytes st.lo addr size, readBytes st.hi addr size)

/-- The object representation of a `ULong`: its eight bytes, least significant first. -/
def ulongBytes (u : Nat) : List UInt8 := leBytes u 8

/-- The index `dg_bar_writeToTape_call` assembles from two shadow values: the first four
bytes of each (`*(UInt*)&indexLo`, `*(UInt*)&indexHi`), read as one `ULong`. -/
def assembleIndex (lo hi : Nat) : Nat := leNat ((ulongBytes lo).take 4 ++ (ulongBytes hi).take 4)

/-- The shadow values `dg_bar_writeToTape` makes of a new index `i`:
`Lo = 32HLto64(0, 64to32 i)` and `Hi = 32HLto64(0, 64HIto32 i)`. -/
def indexPair (i : Nat) : Nat × Nat := (i % 2 ^ 32, i / 2 ^ 32 % 2 ^ 32)

/-! ## The helpers of the instrumented code -/

/-- `dg_bar_writeToTape_call`: the operand indices assembled from the shadow values, and
the partials passed on as they came (`*(double*)&diff1` keeps the bits). -/
def dgBarWriteToTapeCall (index1Lo index1Hi index2Lo index2Hi diff1 diff2 : Nat)
    (st : BarState) : Nat × BarState :=
  tapeAddStatement (assembleIndex index1Lo index1Hi) (assembleIndex index2Lo index2Hi) diff1 diff2
    st

/-- The F80 store helpers: the lower four bytes of `i64` go to one layer at `addrU`
(`dg_bar_shadowSet` with the other buffer `NULL`). -/
def storeF80leHelper (layer : Layer) (addrU : Addr) (i64 : Nat) (st : BarState) : BarState :=
  match layer with
  | .lo => dgBarShadowSet st addrU (some ((ulongBytes i64).take 4)) none
  | .hi => dgBarShadowSet st addrU none (some ((ulongBytes i64).take 4))

/-- `dg_bar_x86g_amd64g_dirtyhelper_storeF80le_Lo`. -/
def dgBarX86gAmd64gDirtyhelperStoreF80leLo : Addr → Nat → BarState → BarState :=
  storeF80leHelper .lo

/-- `dg_bar_x86g_amd64g_dirtyhelper_storeF80le_Hi`. -/
def dgBarX86gAmd64gDirtyhelperStoreF80leHi : Addr → Nat → BarState → BarState :=
  storeF80leHelper .hi

/-- The F80 load helpers: four bytes of both layers at `addrU` go to the first halves of
the locals `i64_Lo` and `i64_Hi`, and one of them is returned. Its last four bytes are never
written: they are those of `stale`, whatever the local held before. -/
def loadF80leHelper (layer : Layer) (stale : Nat) (addrU : Addr) (st : BarState) : Nat :=
  let r := dgBarShadowGet st addrU 4
  leNat ((match layer with | .lo => r.1 | .hi => r.2) ++ (ulongBytes stale).drop 4)

/-- `dg_bar_x86g_amd64g_dirtyhelper_loadF80le_Lo`. -/
def dgBarX86gAmd64gDirtyhelperLoadF80leLo : Nat → Addr → BarState → Nat := loadF80leHelper .lo

/-- `dg_bar_x86g_amd64g_dirtyhelper_loadF80le_Hi`. -/
def dgBarX86gAmd64gDirtyhelperLoadF80leHi : Nat → Addr → BarState → Nat := loadF80leHelper .hi

/-- Modelled from the spec: the helper `storeShadowMemory` calls writes the `size` low bytes
of a shadow value to the layer at `addr`. -/
def shadowStoreHelper (layer : Layer) (size : Nat) (addr : Addr) (v : Nat) (st : BarState) :
    BarState :=
  match layer with
  | .lo => dgBarShadowSet st addr (some (leBytes v size)) none
  | .hi => dgBarShadowSet st addr none (some (leBytes v size))

@[simp] theorem shadowStoreHelper_lo_lo (size : Nat) (addr : Addr) (v : Nat) (st : BarState) :
    (shadowStoreHelper .lo size addr v st).lo = writeBytes st.lo addr (leBytes v size) := rfl
@[simp] theorem shadowStoreHelper_lo_hi (size : Nat) (addr : Addr) (v : Nat) (st : BarState) :
    (shadowStoreHelper .lo size addr v st).hi = st.hi := rfl
@[simp] theorem shadowStoreHelper_hi_lo (size : Nat) (addr : Addr) (v : Nat) (st : BarState) :
    (shadowStoreHelper .hi size addr v st).lo = st.lo := rfl
@[simp] theorem shadowStoreHelper_hi_hi (size : Nat) (addr : Addr) (v : Nat) (st : BarState) :
    (shadowStoreHelper .hi size addr v st).hi = writeBytes st.hi addr (leBytes v size) := rfl
@[simp] theorem shadowStoreHelper_tape (layer : Layer) (size : Nat) (addr : Addr) (v : Nat)
    (st : BarState) : (shadowStoreHelper layer size addr v st).tape = st.tape := by
  cases layer <;> rfl

/-- Modelled from the spec: the helper `loadShadowMemory` calls reads `size` bytes of the
layer at `addr` as a little-endian number. -/
def shadowLoadHelper (layer : Layer) (size : Nat) (addr : Addr) (st : BarState) : Nat :=
  leNat (readBytes (st.layer layer) addr size)

/-! ## Client requests and monitor commands -/

/-- `VG_USERREQ__GET_INDEX(addr, iaddr)`: the index of the value at `addr` goes to the
client's `ULong` at `iaddr`, the `Lo` half first. Returns the client memory after. -/
def getIndexRequest (st : BarState) (mem : Addr → UInt8) (addr iaddr : Addr) : Addr → UInt8 :=
  let r := dgBarShadowGet st addr 4
  writeBytes (writeBytes mem iaddr r.1) (iaddr + 4) r.2

/-- `VG_USERREQ__SET_INDEX(addr, iaddr)`: the client's `ULong` at `iaddr` becomes the index
of the value at `addr`. -/
def setIndexRequest (st : BarState) (mem : Addr → UInt8) (addr iaddr : Addr) : BarState :=
  dgBarShadowSet st addr (some (readBytes mem iaddr 4)) (some (readBytes mem (iaddr + 4) 4))

/-- `VG_USERREQ__NEW_INDEX` and `VG_USERREQ__NEW_INDEX_NOACTIVITYANALYSIS`, with the fields of
the client's `TapeBlockInfo` read: a new entry, with or without activity pruning, and under
`--record-values` its value when the new index is not `0`. Returns `*newindexaddr`. -/
def newIndexRequest (barRecordValues noActivityAnalysis : Bool)
    (index1 index2 diff1 diff2 value : Nat) (st : BarState) : Nat × BarState :=
  let r := if noActivityAnalysis then tapeAddStatementNoActivityAnalysis index1 index2 diff1 diff2 st
    else tapeAddStatement index1 index2 diff1 diff2 st
  (r.1, if barRecordValues ∧ r.1 ≠ 0 then valuesAddStatement value r.2 else r.2)

/-- The monitor command `index <addr>`: the index of the value at `addr`, both layers read
into one `ULong`. -/
def indexCommand (st : BarState) (addr : Addr) : Nat :=
  let r := dgBarShadowGet st addr 4
  leNat (r.1 ++ r.2)

/-- The monitor commands `mark`, `fmark` and `lmark <addr>`: a new entry without activity
pruning, under `--record-values` the `value` read at `addr` (as a `double`), and the new
index stored for `addr`. Returns the index printed. -/
def markCommand (barRecordValues : Bool) (value : Nat) (st : BarState) (addr : Addr) :
    Nat × BarState :=
  let r := tapeAddStatementNoActivityAnalysis 0 0 0 0 st
  let setIndex := r.1
  let st := if barRecordValues ∧ setIndex ≠ 0 then valuesAddStatement value r.2 else r.2
  (setIndex,
    dgBarShadowSet st addr (some ((ulongBytes setIndex).take 4)) (some ((ulongBytes setIndex).drop 4)))

/-! ## Recorded values -/

/-- What appends to the tape while the client runs: the instrumented arithmetic
(`dg_bar_writeToTape_call`), the two `NEW_INDEX` requests, and the marking commands (with
the value they read). -/
inductive TapeEvent where
  | writeToTapeCall (index1Lo index1Hi index2Lo index2Hi diff1 diff2 : Nat)
  | newIndex (noActivityAnalysis : Bool) (index1 index2 diff1 diff2 value : Nat)
  | mark (addr : Addr) (value : Nat)
  deriving DecidableEq, Repr

/-- One event. -/
def TapeEvent.apply (barRecordValues : Bool) (st : BarState) : TapeEvent → BarState
  | .writeToTapeCall a b c d e f => (dgBarWriteToTapeCall a b c d e f st).2
  | .newIndex na i1 i2 d1 d2 v => (newIndexRequest barRecordValues na i1 i2 d1 d2 v st).2
  | .mark addr v => (markCommand barRecordValues v st addr).2

/-- A run of events, in order. -/
def tapeRun (barRecordValues : Bool) (st : BarState) (evs : List TapeEvent) : BarState :=
  evs.foldl (TapeEvent.apply barRecordValues) st

/-- Whether an event is a client request or a monitor command. -/
def TapeEvent.isRequest : TapeEvent → Bool
  | .writeToTapeCall .. => false
  | _ => true

/-- A `NEW_INDEX` request under `--record-values` records a value exactly when it appends an
entry. -/
theorem newIndexRequest_values_length {st : BarState} (h : st.values.length = st.tape.length)
    (na : Bool) (i1 i2 d1 d2 v : Nat) :
    (newIndexRequest true na i1 i2 d1 d2 v st).2.values.length =
      (newIndexRequest true na i1 i2 d1 d2 v st).2.tape.length := by
  cases na
  · rcases tapeAddStatement_cases i1 i2 d1 d2 st with h' | h' <;>
      simp [newIndexRequest, h', tapeAddStatementNoActivityAnalysis, valuesAddStatement, h]
  · simp [newIndexRequest, tapeAddStatementNoActivityAnalysis, valuesAddStatement, h]

/-- A marking command under `--record-values` appends one entry and one value. -/
theorem markCommand_values_length {st : BarState} (h : st.values.length = st.tape.length)
    (v : Nat) (addr : Addr) :
    (markCommand true v st addr).2.values.length = (markCommand true v st addr).2.tape.length := by
  simp [markCommand, tapeAddStatementNoActivityAnalysis, valuesAddStatement, dgBarShadowSet, h]

/-- `dg_bar_writeToTape_call` records no value, whether or not it appends an entry. -/
theorem dgBarWriteToTapeCall_values (a b c d e f : Nat) (st : BarState) :
    (dgBarWriteToTapeCall a b c d e f st).2.values = st.values := by
  rcases tapeAddStatement_cases (assembleIndex a b) (assembleIndex c d) e f st with h | h <;>
    simp only [dgBarWriteToTapeCall, h, tapeAddStatementNoActivityAnalysis]

/-- Under `--record-values`: an input made by `NEW_INDEX_NOACTIVITYANALYSIS` (value `4.0`,
index 1), then one product by `2.0` that the instrumented code records through
`dg_bar_writeToTape_call`, leave two tape entries and one recorded value, so the value of
entry 2 is missing and every later value is off by one. -/
theorem writeToTapeCall_leaves_value_unrecorded :
    (tapeRun true barInitialState
      [.newIndex true 0 0 0 0 0x4010000000000000,
        .writeToTapeCall 1 0 0 0 0x4000000000000000 0]).tape.length = 2 ∧
    (tapeRun true barInitialState
      [.newIndex true 0 0 0 0 0x4010000000000000,
        .writeToTapeCall 1 0 0 0 0x4000000000000000 0]).values.length = 1 :=
  ⟨rfl, rfl⟩

/-- Under `--record-values`, a run of `NEW_INDEX` requests and marking commands from a state
with one value per entry ends with one value per entry. -/
theorem tapeRun_values_length (evs : List TapeEvent) (hevs : ∀ e ∈ evs, e.isRequest) :
    ∀ st : BarState, st.values.length = st.tape.length →
      (tapeRun true st evs).values.length = (tapeRun true st evs).tape.length := by
  induction evs with
  | nil => exact fun _ h => h
  | cons e evs ih =>
    intro st h
    apply ih (fun e' he' => hevs e' (List.mem_cons_of_mem e he'))
    cases e with
    | writeToTapeCall => simp [TapeEvent.isRequest] at hevs
    | newIndex na i1 i2 d1 d2 v => exact newIndexRequest_values_length h na i1 i2 d1 d2 v
    | mark addr v => exact markCommand_values_length h v addr

/-- An input made by `NEW_INDEX_NOACTIVITYANALYSIS` and a marking command from the initial
state. -/
theorem tapeRun_values_length_newIndexMark :
    (tapeRun true barInitialState
      [.newIndex true 0 0 0 0 0x4010000000000000, .mark 0x1000 0x4000000000000000]).values.length =
    (tapeRun true barInitialState
      [.newIndex true 0 0 0 0 0x4010000000000000, .mark 0x1000 0x4000000000000000]).tape.length :=
  tapeRun_values_length _ (by decide) _ rfl

/-! ## Storing and reading an index -/

theorem take_ulongBytes (u : Nat) : (ulongBytes u).take 4 = leBytes u 4 := by
  rw [ulongBytes, show 8 = 4 + 4 from rfl, leBytes_add, List.take_left' (length_leBytes u 4)]

theorem drop_ulongBytes (u : Nat) : (ulongBytes u).drop 4 = leBytes (u / 2 ^ 32) 4 := by
  rw [ulongBytes, show 8 = 4 + 4 from rfl, leBytes_add, List.drop_left' (length_leBytes u 4)]
  rfl

/-- The bytes of a number depend on it modulo `256 ^ n` only. -/
theorem leBytes_mod (w : Nat) : ∀ n : Nat, leBytes (w % 256 ^ n) n = leBytes w n
  | 0 => rfl
  | n + 1 => by
    have h8 : UInt8.ofNat (w % 256 ^ (n + 1)) = UInt8.ofNat w := by
      apply UInt8.eq_of_toBitVec_eq
      apply BitVec.eq_of_toNat_eq
      simp only [UInt8.ofNat, BitVec.toNat_ofNat, Nat.pow_succ]
      rw [Nat.mod_mul_left_mod]
    rw [leBytes, leBytes, h8, Nat.pow_succ', Nat.mod_mul_right_div_self, leBytes_mod (w / 256) n]

/-- The index `dg_bar_writeToTape_call` assembles: the low 32 bits of each shadow value. -/
theorem assembleIndex_eq (lo hi : Nat) : assembleIndex lo hi = lo % 2 ^ 32 + 2 ^ 32 * (hi % 2 ^ 32) := by
  simp only [assembleIndex, take_ulongBytes, leNat_append, leNat_leBytes, length_leBytes]
  rfl

/-- The index stored for address `a`: four bytes of each layer read as one `ULong`. -/
def storedIndex (st : BarState) (a : Addr) : Nat :=
  leNat ((dgBarShadowGet st a 4).1 ++ (dgBarShadowGet st a 4).2)

/-- The ways an index is stored for an address: the two F80 store helpers given the shadow
values `dg_bar_writeToTape` makes of an index, `SET_INDEX` given a client `ULong` at `iaddr`,
and the marking commands, which store a new index. -/
inductive IndexWriter where
  | storeF80le
  | setIndex (iaddr : Addr)
  | mark (value : Nat)

/-- A writer run for address `a` with index `i` (a marking command takes a new one instead):
the index stored, and the state after. -/
def IndexWriter.write (barRecordValues : Bool) (mem : Addr → UInt8) (st : BarState) (a : Addr)
    (i : Nat) : IndexWriter → Nat × BarState
  | .storeF80le =>
    (i, dgBarX86gAmd64gDirtyhelperStoreF80leHi a (indexPair i).2
      (dgBarX86gAmd64gDirtyhelperStoreF80leLo a (indexPair i).1 st))
  | .setIndex iaddr => (i, setIndexRequest st (writeBytes mem iaddr (ulongBytes i)) a iaddr)
  | .mark value => markCommand barRecordValues value st a

/-- The ways an index is read back for an address: the two F80 load helpers followed by the
reassembly in `dg_bar_writeToTape_call`, `GET_INDEX` into a client `ULong` at `iaddr`, and
the monitor command `index`. -/
inductive IndexReader where
  | loadF80le (staleLo staleHi : Nat)
  | getIndex (iaddr : Addr)
  | index

/-- The index a reader obtains for address `a`. -/
def IndexReader.read (mem : Addr → UInt8) (st : BarState) (a : Addr) : IndexReader → Nat
  | .loadF80le staleLo staleHi =>
    assembleIndex (dgBarX86gAmd64gDirtyhelperLoadF80leLo staleLo a st)
      (dgBarX86gAmd64gDirtyhelperLoadF80leHi staleHi a st)
  | .getIndex iaddr => leNat (readBytes (getIndexRequest st mem a iaddr) iaddr 8)
  | .index => indexCommand st a

theorem readBytes_add (m : Addr → UInt8) (a : Addr) (p q : Nat) :
    readBytes m a (p + q) = readBytes m a p ++ readBytes m (a + BitVec.ofNat 64 p) q := by
  induction p generalizing a with
  | zero => simp [readBytes]
  | succ p ih =>
    rw [Nat.succ_add, readBytes, readBytes, ih, List.cons_append]
    congr 3
    bv_omega

/-- The first four bytes of an eight-byte list with a four-byte list after them. -/
theorem take_ulongBytes_leNat {bs : List UInt8} (hbs : bs.length = 4) (rest : List UInt8)
    (hrest : rest.length = 4) : (ulongBytes (leNat (bs ++ rest))).take 4 = bs := by
  have h := leBytes_leNat (bs ++ rest)
  rw [List.length_append, hbs, hrest] at h
  rw [ulongBytes, h, List.take_left' hbs]

/-- Every reader sees the stored index, in every state and whatever the stale bytes of the
F80 load helpers. -/
theorem IndexReader.read_eq (mem : Addr → UInt8) (st : BarState) (a : Addr) :
    ∀ r : IndexReader, r.read mem st a = storedIndex st a
  | .loadF80le staleLo staleHi => by
    simp only [IndexReader.read, dgBarX86gAmd64gDirtyhelperLoadF80leLo,
      dgBarX86gAmd64gDirtyhelperLoadF80leHi, loadF80leHelper, assembleIndex, storedIndex,
      dgBarShadowGet]
    rw [take_ulongBytes_leNat (length_readBytes _ _ 4) _ (by simp [ulongBytes]),
      take_ulongBytes_leNat (length_readBytes _ _ 4) _ (by simp [ulongBytes])]
  | .getIndex iaddr => by
    simp only [IndexReader.read, getIndexRequest, storedIndex, dgBarShadowGet,
      show 8 = 4 + 4 from rfl, readBytes_add]
    rw [show BitVec.ofNat 64 4 = (4 : Addr) from rfl, readBytes_writeBytes_of_disjoint _ _ _ _ _ (by simp)
        fun k hk => by simp only [length_readBytes]; bv_omega,
      readBytes_writeBytes_self _ _ _ (by simp) (by simp),
      readBytes_writeBytes_self _ _ _ (by simp) (by simp)]
  | .index => rfl

/-- The stored index when the layers hold the lower and upper four bytes of `i`. -/
theorem storedIndex_of_bytes {st : BarState} {a : Addr} {i : Nat} (hi : i < 2 ^ 64)
    (h : dgBarShadowGet st a 4 = ((ulongBytes i).take 4, (ulongBytes i).drop 4)) :
    storedIndex st a = i := by
  rw [storedIndex, h, List.take_append_drop, ulongBytes, leNat_leBytes]
  exact Nat.mod_eq_of_lt hi

theorem readBytes_writeBytes_ulong (m : Addr → UInt8) (a : Addr) (i : Nat) :
    readBytes (writeBytes m a (ulongBytes i)) a 4 = (ulongBytes i).take 4 ∧
      readBytes (writeBytes m a (ulongBytes i)) (a + 4) 4 = (ulongBytes i).drop 4 := by
  have h := readBytes_writeBytes_self m a (ulongBytes i) (n := 4 + 4) (by simp [ulongBytes])
    (by simp [ulongBytes])
  rw [readBytes_add] at h
  conv at h => rhs; rw [← List.take_append_drop 4 (ulongBytes i)]
  exact List.append_inj h (by simp [ulongBytes])

/-- Every writer leaves the index it stores in the layers at `a`, when it fits a `ULong`. -/
theorem IndexWriter.storedIndex_write (barRecordValues : Bool) (mem : Addr → UInt8)
    (st : BarState) (a : Addr) (i : Nat) (w : IndexWriter)
    (hi : (w.write barRecordValues mem st a i).1 < 2 ^ 64) :
    storedIndex (w.write barRecordValues mem st a i).2 a = (w.write barRecordValues mem st a i).1 := by
  apply storedIndex_of_bytes hi
  cases w with
  | storeF80le =>
    simp only [IndexWriter.write, dgBarX86gAmd64gDirtyhelperStoreF80leHi,
      dgBarX86gAmd64gDirtyhelperStoreF80leLo, storeF80leHelper, dgBarShadowGet, dgBarShadowSet,
      Option.elim, indexPair, take_ulongBytes, drop_ulongBytes]
    rw [show (2 : Nat) ^ 32 = 256 ^ 4 from rfl, leBytes_mod, leBytes_mod,
      readBytes_writeBytes_self _ _ _ (by simp) (by simp),
      readBytes_writeBytes_self _ _ _ (by simp) (by simp)]
  | setIndex iaddr =>
    obtain ⟨h₁, h₂⟩ := readBytes_writeBytes_ulong mem iaddr i
    simp only [IndexWriter.write, setIndexRequest, dgBarShadowGet, dgBarShadowSet, Option.elim,
      h₁, h₂]
    rw [readBytes_writeBytes_self _ _ _ (by simp [ulongBytes]) (by simp [ulongBytes]),
      readBytes_writeBytes_self _ _ _ (by simp [ulongBytes]) (by simp [ulongBytes])]
  | mark value =>
    simp only [IndexWriter.write, markCommand, dgBarShadowGet, dgBarShadowSet, Option.elim]
    rw [readBytes_writeBytes_self _ _ _ (by simp [ulongBytes]) (by simp [ulongBytes]),
      readBytes_writeBytes_self _ _ _ (by simp [ulongBytes]) (by simp [ulongBytes])]

end Derivgrind
