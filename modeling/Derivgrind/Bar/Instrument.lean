import Derivgrind.Bar.Runtime
import Derivgrind.IR.Bits
import Derivgrind.Nulgrind.Instrument

/-!
# Derivgrind.Bar.Instrument

The recording-mode instrumentation: the `ExpressionHandling` callbacks of `dg_bar`, which
say how an index pair is read, written, loaded, stored, made for a constant, compared,
selected and recorded on the tape; `dg_original_statement`; and `dg_instrument`, which gives
every temporary two shadow temporaries and walks the block.

A value of the original block is shadowed by two expressions, the `Lo` and `Hi` halves of its
index; a callback's `void*` result is that pair, `NULL` is `none`. The statement walker
`add_statement_modified` and the operator rules `dg_bar_operations.c` (generated by a script)
are not in the repository: `dgInstrument` takes the statement handler as a parameter, and
`dg_bar_operation` is left out. `storeShadowMemory` and `loadShadowMemory` (`dg_shadow.c`) are
modelled from the spec, as one dirty call to a helper of `Derivgrind.Bar.Runtime`.

`barToolCall` says what the helpers do when the instrumented code runs, under the bit-level
reading of values (`Derivgrind.IR.Bits`). Main result: `dgBarWriteToTape_roundTrip`, the
index round trips of recording mode.
-/

namespace Derivgrind

/-- A helper call with an always-true guard (`unsafeIRDirty_0_N`, `unsafeIRDirty_1_N`). -/
def dirtyCall (cee : IRCallee) (args : List IRExpr) (tmp : Option Nat) : IRDirty :=
  { cee := cee, guard := .const (.u1 true), args := args, tmp := tmp }

/-! ## Shadow temporaries and registers -/

section Callbacks

variable (env : DiffEnv)

/-- `dg_bar_wrtmp`: the two halves to the shadow temporaries `temp + tmp_offset` and
`temp + 2 * tmp_offset`. -/
def dgBarWrtmp (temp : Nat) (expr : IRExpr × IRExpr) (sb : IRSB) : IRSB :=
  addStmtToIRSB (addStmtToIRSB sb (.wrTmp (temp + env.tOffset) expr.1))
    (.wrTmp (temp + 2 * env.tOffset) expr.2)

/-- `dg_bar_rdtmp`. -/
def dgBarRdtmp (temp : Nat) : IRExpr × IRExpr :=
  (.rdTmp (temp + env.tOffset), .rdTmp (temp + 2 * env.tOffset))

/-- `dg_bar_puti`: with a register array, a `PutI` into each of its two shadow copies, base
and bias both shifted by `gs_offset` (resp. twice it); without, a `Put` at `offset` shifted
alike. -/
def dgBarPuti (offset : Int) (expr : IRExpr × IRExpr) (descr : Option IRRegArray) (ix : IRExpr)
    (sb : IRSB) : IRSB :=
  match descr with
  | some d =>
    let sb := addStmtToIRSB sb
      (.putI { d with base := d.base + env.totalSizeB } ix (offset + env.totalSizeB) expr.1)
    addStmtToIRSB sb
      (.putI { d with base := d.base + 2 * env.totalSizeB } ix (offset + 2 * env.totalSizeB) expr.2)
  | none =>
    let sb := addStmtToIRSB sb (.put (offset + env.totalSizeB).toNat expr.1)
    addStmtToIRSB sb (.put (offset + 2 * env.totalSizeB).toNat expr.2)

end Callbacks

/-! ## Shadow memory -/

/-- Modelled from the spec: `storeShadowMemory(sm, sb_out, addr, expr, guard)` appends a dirty
call, guarded by `guard`, that writes the bytes of `expr` to layer `sm` at `addr`. -/
def storeShadowMemory (layer : Layer) (sb : IRSB) (addr expr guard : IRExpr) : IRSB :=
  addStmtToIRSB sb (.dirty
    { dirtyCall (.shadowStore layer (sizeofIRType (expr.type sb.tyenv))) [addr, expr] none with
      guard := guard })

/-- Modelled from the spec: `loadShadowMemory(sm, sb_out, addr, type)` reads a value of
`type` from layer `sm` at `addr` into a new temporary, and returns that temporary. -/
def loadShadowMemory (layer : Layer) (sb : IRSB) (addr : IRExpr) (type : IRType) : IRExpr × IRSB :=
  let (t, sb) := newIRTemp sb type
  (.rdTmp t, addStmtToIRSB sb (.dirty (dirtyCall (.shadowLoad layer (sizeofIRType type)) [addr] (some t))))

/-- `dg_bar_store`. -/
def dgBarStore (sb : IRSB) (addr : IRExpr) (expr : IRExpr × IRExpr) (guard : IRExpr) : IRSB :=
  storeShadowMemory .hi (storeShadowMemory .lo sb addr expr.1 guard) addr expr.2 guard

/-- `dg_bar_load`. -/
def dgBarLoad (sb : IRSB) (addr : IRExpr) (type : IRType) : (IRExpr × IRExpr) × IRSB :=
  let rLo := loadShadowMemory .lo sb addr type
  let rHi := loadShadowMemory .hi rLo.2 addr type
  ((rLo.1, rHi.1), rHi.2)

/-- `dg_bar_dirty_storeF80le`: the F80 store helpers, `Lo` first. -/
def dgBarDirtyStoreF80le (sb : IRSB) (addr : IRExpr) (expr : IRExpr × IRExpr) : IRSB :=
  let sb := addStmtToIRSB sb (.dirty (dirtyCall (.dgBarStoreF80le .lo) [addr, expr.1] none))
  addStmtToIRSB sb (.dirty (dirtyCall (.dgBarStoreF80le .hi) [addr, expr.2] none))

/-- `dg_bar_dirty_loadF80le`: the F80 load helpers, into the shadow temporaries of `temp`. -/
def dgBarDirtyLoadF80le (env : DiffEnv) (sb : IRSB) (addr : IRExpr) (temp : Nat) : IRSB :=
  let sb := addStmtToIRSB sb
    (.dirty (dirtyCall (.dgBarLoadF80le .lo) [addr] (some (temp + env.tOffset))))
  addStmtToIRSB sb (.dirty (dirtyCall (.dgBarLoadF80le .hi) [addr] (some (temp + 2 * env.tOffset))))

/-! ## Constants, comparison, selection -/

/-- `dg_bar_constant`: both halves are a zero of the constant's kind. -/
def dgBarConstant (c : IRConst) : IRExpr × IRExpr :=
  let zero : IRExpr := match c with
    | .f64 _ => .unop (.reinterp .i64 .f64) (.const (.u64 0))
    | .f64i _ => .const (.f64i 0)
    | .f32 _ | .f32i _ => .unop (.reinterp .i32 .f32) (.const (.u32 0))
    | .u1 _ => .const (.u1 false)
    | .u8 _ => .const (.u8 0)
    | .u16 _ => .const (.u16 0)
    | .u32 _ => .const (.u32 0)
    | .u64 _ => .const (.u64 0)
    | .u128 _ => .const (.u128 0)
    | .v128 _ => .const (.v128 0)
    | .v256 _ => .const (.v256 0)
  (zero, zero)

/-- `dg_bar_default_`: both halves are a zero of the type; the code asserts on the types the
switch does not list. -/
def dgBarDefault (type : IRType) : Option (IRExpr × IRExpr) :=
  let zeroU : IRExpr := .const (.u64 0)
  let zero : Option IRExpr := match type with
    | .i1 => some (.const (.u1 false))
    | .i8 => some (.const (.u8 0))
    | .i16 => some (.const (.u16 0))
    | .i32 => some (.const (.u32 0))
    | .i64 => some zeroU
    | .i128 => some (.const (.u128 0))
    | .f32 => some (.unop (.reinterp .i32 .f32) (.const (.u32 0)))
    | .f64 => some (.const (.f64i 0))
    | .d64 => some (.unop (.reinterp .i64 .d64) zeroU)
    | .f128 => some (.unop (.reinterp .i128 .f128) (.const (.u128 0)))
    | .v128 => some (.binop (.hlTo .i64 .v128) zeroU zeroU)
    | .v256 => some (.qop .v64x4toV256 zeroU zeroU zeroU zeroU)
    | _ => none
  zero.map fun z => (z, z)

/-- `dg_bar_compare`: both halves equal; the code asserts that the two pairs have one integer
type of at most 64 bits. -/
def dgBarCompare (tyenv : List IRType) (arg1 arg2 : IRExpr × IRExpr) : Option IRExpr :=
  let type := arg1.1.type tyenv
  if type = arg2.1.type tyenv ∧ (type = .i8 ∨ type = .i16 ∨ type = .i32 ∨ type = .i64) then
    some (.binop (.and .i1) (.binop (.cmpEQ type) arg1.1 arg2.1) (.binop (.cmpEQ type) arg1.2 arg2.2))
  else none

/-- `dg_bar_ite`. -/
def dgBarIte (cond : IRExpr) (dtrue dfalse : IRExpr × IRExpr) : IRExpr × IRExpr :=
  (.ite cond dtrue.1 dfalse.1, .ite cond dtrue.2 dfalse.2)

/-! ## Recording on the tape -/

/-- `dg_bar_writeToTape`: a call of `dg_bar_writeToTape_call` into a new `Ity_I64` temporary,
the partials reinterpreted as integers; the new index is split into its `Lo` and `Hi` halves,
each widened back to 64 bits. -/
def dgBarWriteToTape (sb : IRSB) (index1Lo index1Hi index2Lo index2Hi diff1 diff2 : IRExpr) :
    (IRExpr × IRExpr) × IRSB :=
  let (returnindex, sb) := newIRTemp sb .i64
  let sb := addStmtToIRSB sb (.dirty (dirtyCall .dgBarWriteToTapeCall
    [index1Lo, index1Hi, index2Lo, index2Hi, .unop (.reinterp .f64 .i64) diff1,
      .unop (.reinterp .f64 .i64) diff2] (some returnindex)))
  let exLo := IRExpr.binop (.hlTo .i32 .i64) (.const (.u32 0)) (.unop (.lo .i64 .i32) (.rdTmp returnindex))
  let exHi := IRExpr.binop (.hlTo .i32 .i64) (.const (.u32 0)) (.unop (.hi .i64 .i32) (.rdTmp returnindex))
  ((exLo, exHi), sb)

/-! ## The original statement and the block -/

/-- Modelled from VEX's meaning of a compare-and-swap, as `addressesOfCAS` (in `dg_utils.c`,
not in the repository) computes it: the low element at `addr`, the high one right after it. -/
def addressesOfCAS (det : IRCAS) (sb : IRSB) : IRExpr × IRExpr :=
  (det.addr,
    .binop (.other "Add64" .i64) det.addr (.const (.u64 (sizeofIRType (det.expdLo.type sb.tyenv)))))

/-- `dg_original_statement`: a CAS whose success the instrumentation has tested into
`cas_succeeded` becomes loads of the old values and stores that write the new data or,
when the CAS fails, the old data back; every other statement is copied. -/
def dgOriginalStatement (casSucceeded : Option Nat) (sb : IRSB) (st : IRStmt) : IRSB :=
  match st, casSucceeded with
  | .cas det, some cs =>
    let type := det.expdLo.type sb.tyenv
    let doubleElement := det.expdHi.isSome
    let addrs := addressesOfCAS det sb
    let sb := addStmtToIRSB sb (.wrTmp det.oldLo (.load type addrs.1))
    let sb := match doubleElement, det.oldHi with
      | true, some oldHi => addStmtToIRSB sb (.wrTmp oldHi (.load type addrs.2))
      | _, _ => sb
    let sb := addStmtToIRSB sb (.store addrs.1 (.ite (.rdTmp cs) det.dataLo (.load type addrs.1)))
    match doubleElement, det.dataHi with
    | true, some dataHi => addStmtToIRSB sb (.store addrs.2 (.ite (.rdTmp cs) dataHi (.load type addrs.2)))
    | _, _ => sb
  | st, _ => addStmtToIRSB sb st

/-- `dg_instrument` in recording mode, for a statement handler `handle`: the handler is
`dg_bar_handle_statement`, that is `add_statement_modified` with the callbacks above, which is
not in the repository. It returns the block with the instrumentation of one statement
appended, and `cas_succeeded` (`none` for `IRTemp_INVALID`). -/
def dgInstrument (handle : DiffEnv → IRSB → IRStmt → IRSB × Option Nat) (totalSizeB : Nat)
    (sbIn : IRSB) : IRSB :=
  let env : DiffEnv := ⟨sbIn.tyenv.length, totalSizeB⟩
  let sbOut : IRSB :=
    { tyenv := sbIn.tyenv ++ sbIn.tyenv ++ sbIn.tyenv,
      stmts := sbIn.stmts.takeWhile fun st => !st.isIMark,
      next := sbIn.next }
  (sbIn.stmts.dropWhile fun st => !st.isIMark).foldl
    (fun sb st => let r := handle env sb st; dgOriginalStatement r.2 r.1 st) sbOut

/-! ## The helpers at run time -/

/-- What the recording-mode helpers do when the instrumented code runs, values being bits.
`stale` is what the never-written halves of the F80 load helpers' locals hold. -/
def barToolCall (stale : Layer → Nat) : ToolCall Nat BarState
  | .dgBarWriteToTapeCall, [index1Lo, index1Hi, index2Lo, index2Hi, diff1, diff2], st =>
    dgBarWriteToTapeCall index1Lo index1Hi index2Lo index2Hi diff1 diff2 st
  | .dgBarStoreF80le layer, [addrU, i64], st =>
    (0, storeF80leHelper layer (BitVec.ofNat 64 addrU) i64 st)
  | .dgBarLoadF80le layer, [addrU], st =>
    (loadF80leHelper layer (stale layer) (BitVec.ofNat 64 addrU) st, st)
  | .shadowStore layer size, [addr, v], st =>
    (0, shadowStoreHelper layer size (BitVec.ofNat 64 addr) v st)
  | .shadowLoad layer size, [addr], st => (shadowLoadHelper layer size (BitVec.ofNat 64 addr) st, st)
  | _, _, st => (0, st)

/-! ## Index round trips -/

section RoundTrip

variable (ext : Interp Nat)

/-- The halves `dg_bar_writeToTape` makes of the index its call returned. -/
theorem eval_dgBarWriteToTape (sb : IRSB) (i1Lo i1Hi i2Lo i2Hi d1 d2 : IRExpr)
    (s : State Nat BarState) :
    (eval (bitsInterp ext) s (dgBarWriteToTape sb i1Lo i1Hi i2Lo i2Hi d1 d2).1.1,
      eval (bitsInterp ext) s (dgBarWriteToTape sb i1Lo i1Hi i2Lo i2Hi d1 d2).1.2) =
      indexPair (s.tmps sb.tyenv.length) := by
  simp [dgBarWriteToTape, eval, bitsBinop, bitsUnop, bitsConst, IRType.intWidth, sizeofIRType,
    indexPair]

/-- The halves of an index that fits a `ULong` reassemble to it. -/
theorem assembleIndex_indexPair {i : Nat} (hi : i < 2 ^ 64) :
    assembleIndex (indexPair i).1 (indexPair i).2 = i := by
  rw [assembleIndex_eq, indexPair]
  dsimp only
  omega

/-- The statement `dg_bar_writeToTape` appends: the call of `dg_bar_writeToTape_call`. -/
theorem dgBarWriteToTape_stmts (sb : IRSB) (i1Lo i1Hi i2Lo i2Hi d1 d2 : IRExpr) :
    (dgBarWriteToTape sb i1Lo i1Hi i2Lo i2Hi d1 d2).2.stmts.drop sb.stmts.length =
      [.dirty (dirtyCall .dgBarWriteToTapeCall
        [i1Lo, i1Hi, i2Lo, i2Hi, .unop (.reinterp .f64 .i64) d1, .unop (.reinterp .f64 .i64) d2]
        (some sb.tyenv.length))] := by
  simp [dgBarWriteToTape, newIRTemp]

/-- The index round trips of recording mode, for every 64-bit index `i`: (1) the `Lo` and `Hi`
values `dg_bar_writeToTape` builds from a returned index are reassembled to it by
`dg_bar_writeToTape_call`; (2) an index stored for an address by the F80 store helpers, by
`SET_INDEX` or by a marking command is read back whole by the F80 load helpers with that
reassembly, by `GET_INDEX` and by `index`; (3) the partials reach `tapeAddStatement` as the
bits of the `F64` values `dg_bar_writeToTape` reinterprets. -/
theorem dgBarWriteToTape_roundTrip :
    (∀ (sb : IRSB) (i1Lo i1Hi i2Lo i2Hi d1 d2 : IRExpr) (s : State Nat BarState) (i : Nat),
      i < 2 ^ 64 → s.tmps sb.tyenv.length = i →
        assembleIndex (eval (bitsInterp ext) s (dgBarWriteToTape sb i1Lo i1Hi i2Lo i2Hi d1 d2).1.1)
          (eval (bitsInterp ext) s (dgBarWriteToTape sb i1Lo i1Hi i2Lo i2Hi d1 d2).1.2) = i) ∧
    (∀ (w : IndexWriter) (r : IndexReader) (barRecordValues : Bool) (mem : Addr → UInt8)
      (st : BarState) (a : Addr) (i : Nat), (w.write barRecordValues mem st a i).1 < 2 ^ 64 →
        r.read mem (w.write barRecordValues mem st a i).2 a =
          (w.write barRecordValues mem st a i).1) ∧
    (∀ (stale : Layer → Nat) (tyenv : List IRType) (sb : IRSB) (i1Lo i1Hi i2Lo i2Hi d1 d2 : IRExpr)
      (s : State Nat BarState), s.exit = none →
        (execStmts (bitsInterp ext) (barToolCall stale) tyenv s
          ((dgBarWriteToTape sb i1Lo i1Hi i2Lo i2Hi d1 d2).2.stmts.drop sb.stmts.length)).tool =
        (tapeAddStatement
          (assembleIndex (eval (bitsInterp ext) s i1Lo) (eval (bitsInterp ext) s i1Hi))
          (assembleIndex (eval (bitsInterp ext) s i2Lo) (eval (bitsInterp ext) s i2Hi))
          (eval (bitsInterp ext) s d1) (eval (bitsInterp ext) s d2) s.tool).2) := by
  refine ⟨fun sb i1Lo i1Hi i2Lo i2Hi d1 d2 s i hi hs => ?_,
    fun w r rv mem st a i hi => (r.read_eq mem _ a).trans (w.storedIndex_write rv mem st a i hi),
    fun stale tyenv sb i1Lo i1Hi i2Lo i2Hi d1 d2 s hs => ?_⟩
  · have h := eval_dgBarWriteToTape ext sb i1Lo i1Hi i2Lo i2Hi d1 d2 s
    rw [hs] at h
    calc _ = assembleIndex (indexPair i).1 (indexPair i).2 := by rw [← h]
      _ = i := assembleIndex_indexPair hi
  · rw [dgBarWriteToTape_stmts, execStmts_cons_of_running _ _ _ hs, execStmts_nil]
    simp [execStmt, dirtyCall, eval, bitsConst, callDirty, barToolCall, bitsUnop,
      dgBarWriteToTapeCall]

end RoundTrip

end Derivgrind
