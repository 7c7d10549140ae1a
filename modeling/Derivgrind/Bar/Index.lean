import Derivgrind.Bar.Frame

/-!
# Derivgrind.Bar.Index

Which indices `dg_bar_writeToTape_call` can reassemble from the shadow values it is given.

The recording-mode shadow of a value is a pair of words, `Lo` and `Hi`, and the code
reassembles an index from the first four bytes of each. Between the call that makes an index
and the call that uses it, the pair moves through shadow temporaries, through the two
shadow-memory layers by `dg_bar_store` and `dg_bar_load`, and through them by the helpers of
the x87 `F80` stores and loads; the client request `SET_INDEX` and the marking monitor
commands store indices in the layers too. `BarMachine` keeps these moves and nothing else:
registers holding pairs, the recording-mode state, and `ShadowOp.step`.

The callbacks refine the machine. A piece of callback code (`ShadowCode`: the statements the
callbacks emit for a copy, a constant, a store, a load, a recording and the two `F80` helpers)
changes the shadow temporaries and the tool state as one `ShadowOp.step` changes the registers
and the machine state (`ShadowCode.simulates`), and so does a run of pieces
(`shadowCode_run_simulates`); a recording piece passes `dg_bar_writeToTape_call` exactly the
operand indices the machine's recording reads (`codeReferencesEarlier_iff`). The statement
handler that strings the callbacks together for `dg_instrument` is not in the repository, so
the refinement is stated for any sequence of pieces; marks and `SET_INDEX` come from the
monitor and the client, not from instrumented code, and are machine steps only.

When every shadow store and load is at an address and of a size that are multiples of four,
every `F80` store, `F80` load and mark at a multiple of four, every `F80` load finds zero in
the upper halves of the helpers' locals, and no `SET_INDEX` request comes (`ShadowOp.Safe`),
every four-byte chunk of every register and of the layers stays `0` or an index the tape has
given out (`BarMachine.Valid`), so every recording references earlier entries only
(`shadowRun_referencesEarlier`, `shadowCode_referencesEarlier`). But the `F80` load helpers
return their locals with the upper halves as they were: an aligned `F80` load, an aligned
eight-byte store of its shadow and a four-byte load of the upper half make a recording
reference an index no call returned (`f80StaleBytes_reference_unreturned`). A load across the
shadow bytes of two values does the same without any `F80` access (the example after
`shadowRun_referencesEarlier`).
-/

namespace Derivgrind

/-! ## What the store and load callbacks do -/

section Callbacks

variable (ext : Interp Nat) (stale : Layer → Nat) (tyenv : List IRType)

/-- The statements `dg_bar_store` emits store the `Lo` half in the lower layer and the `Hi`
half in the upper layer, each with the size of its type, when the guard holds. -/
theorem execStmts_dgBarStore (sb : IRSB) (addr : IRExpr) (expr : IRExpr × IRExpr) (guard : IRExpr)
    {s : State Nat BarState} (hs : s.exit = none)
    (hg : (bitsInterp ext).isTrue (eval (bitsInterp ext) s guard) = true) :
    execStmts (bitsInterp ext) (barToolCall stale) tyenv s
        ((dgBarStore sb addr expr guard).stmts.drop sb.stmts.length) =
      { s with
        tool := (shadowStoreHelper .hi (sizeofIRType (expr.2.type sb.tyenv))
          (BitVec.ofNat 64 (eval (bitsInterp ext) s addr)) (eval (bitsInterp ext) s expr.2)
          (shadowStoreHelper .lo (sizeofIRType (expr.1.type sb.tyenv))
            (BitVec.ofNat 64 (eval (bitsInterp ext) s addr)) (eval (bitsInterp ext) s expr.1)
            s.tool)) } := by
  simp only [dgBarStore, storeShadowMemory, addStmtToIRSB, List.append_assoc, List.drop_left,
    List.singleton_append, execStmts, execStmt, hs, hg, if_true, dirtyCall,
    callDirty_of_tool, IRCallee.isGuest, List.map,
    barToolCall, setTmp, eval_tool]

/-- The statements `dg_bar_load` emits read the lower and the upper layer, each with the size of
the loaded type, into two new temporaries, which it returns, and leave the tool state alone. -/
theorem execStmts_dgBarLoad (sb : IRSB) (addr : IRExpr) (type : IRType)
    (haddr : addr.tmpsBelow sb.tyenv.length) {s : State Nat BarState} (hs : s.exit = none) :
    (dgBarLoad sb addr type).1 = (.rdTmp sb.tyenv.length, .rdTmp (sb.tyenv.length + 1)) ∧
      execStmts (bitsInterp ext) (barToolCall stale) tyenv s
          ((dgBarLoad sb addr type).2.stmts.drop sb.stmts.length) =
        { s with
          tmps := (Function.update (Function.update s.tmps sb.tyenv.length
            (shadowLoadHelper .lo (sizeofIRType type)
              (BitVec.ofNat 64 (eval (bitsInterp ext) s addr)) s.tool)) (sb.tyenv.length + 1)
            (shadowLoadHelper .hi (sizeofIRType type)
              (BitVec.ofNat 64 (eval (bitsInterp ext) s addr)) s.tool)) } := by
  have hkeep : ∀ v, ∀ t < sb.tyenv.length, Function.update s.tmps sb.tyenv.length v t = s.tmps t :=
    fun v t ht => Function.update_noteq (by omega) _ _
  refine ⟨by simp [dgBarLoad, loadShadowMemory], ?_⟩
  simp only [dgBarLoad, loadShadowMemory, newIRTemp, addStmtToIRSB, List.append_assoc,
    List.drop_left, List.singleton_append, execStmts, execStmt, hs, dirtyCall, bitsInterp_isTrue,
    bitsConst, bitsInterp_const, Bool.toNat_true, beq_self_eq_true, if_true, callDirty_of_tool,
    IRCallee.isGuest, List.map, barToolCall, setTmp, eval, List.length_append,
    List.length_singleton, eval_mk_of_tmpsBelow _ s (hkeep _) _ _ addr haddr]

/-- The statements `dg_bar_dirty_storeF80le` emits write the first four bytes of each half to
its layer. -/
theorem execStmts_dgBarDirtyStoreF80le (sb : IRSB) (addr : IRExpr) (expr : IRExpr × IRExpr)
    {s : State Nat BarState} (hs : s.exit = none) :
    execStmts (bitsInterp ext) (barToolCall stale) tyenv s
        ((dgBarDirtyStoreF80le sb addr expr).stmts.drop sb.stmts.length) =
      { s with
        tool := dgBarX86gAmd64gDirtyhelperStoreF80leHi (BitVec.ofNat 64 (eval (bitsInterp ext) s addr))
          (eval (bitsInterp ext) s expr.2)
          (dgBarX86gAmd64gDirtyhelperStoreF80leLo (BitVec.ofNat 64 (eval (bitsInterp ext) s addr))
            (eval (bitsInterp ext) s expr.1) s.tool) } := by
  simp only [dgBarDirtyStoreF80le, addStmtToIRSB, List.append_assoc, List.drop_left,
    List.singleton_append, execStmts, execStmt, hs, dirtyCall, bitsInterp_isTrue, eval, bitsConst,
    bitsInterp_const, Bool.toNat_true, beq_self_eq_true, if_true, callDirty_of_tool,
    IRCallee.isGuest, List.map, barToolCall, setTmp, eval_tool]
  rfl

/-- The statements `dg_bar_dirty_loadF80le` emits set the shadow temporaries of `temp` to the
load helpers' results, with the upper four bytes of `stale`. -/
theorem execStmts_dgBarDirtyLoadF80le (env : DiffEnv) (sb : IRSB) (addr : IRExpr) (temp : Nat)
    (haddr : addr.tmpsBelow env.tOffset) {s : State Nat BarState} (hs : s.exit = none) :
    execStmts (bitsInterp ext) (barToolCall stale) tyenv s
        ((dgBarDirtyLoadF80le env sb addr temp).stmts.drop sb.stmts.length) =
      { s with
        tmps := Function.update (Function.update s.tmps (temp + env.tOffset)
          (dgBarX86gAmd64gDirtyhelperLoadF80leLo (stale .lo)
            (BitVec.ofNat 64 (eval (bitsInterp ext) s addr)) s.tool)) (temp + 2 * env.tOffset)
          (dgBarX86gAmd64gDirtyhelperLoadF80leHi (stale .hi)
            (BitVec.ofNat 64 (eval (bitsInterp ext) s addr)) s.tool) } := by
  have hkeep : ∀ v, ∀ t < env.tOffset, Function.update s.tmps (temp + env.tOffset) v t = s.tmps t :=
    fun v t ht => Function.update_noteq (by omega) _ _
  simp only [dgBarDirtyLoadF80le, addStmtToIRSB, List.append_assoc, List.drop_left,
    List.singleton_append, execStmts, execStmt, hs, dirtyCall, bitsInterp_isTrue, eval, bitsConst,
    bitsInterp_const, Bool.toNat_true, beq_self_eq_true, if_true, callDirty_of_tool,
    IRCallee.isGuest, List.map, barToolCall, setTmp, eval_mk_of_tmpsBelow _ s (hkeep _) _ _ addr haddr]
  rfl

/-- The statement `dg_bar_writeToTape` appends calls `dg_bar_writeToTape_call` on the values of
its arguments, the partials' bits unchanged, and puts the index it returns in the new
temporary. -/
theorem execStmts_dgBarWriteToTape (sb : IRSB) (i1Lo i1Hi i2Lo i2Hi d1 d2 : IRExpr)
    {s : State Nat BarState} (hs : s.exit = none) :
    execStmts (bitsInterp ext) (barToolCall stale) tyenv s
        ((dgBarWriteToTape sb i1Lo i1Hi i2Lo i2Hi d1 d2).2.stmts.drop sb.stmts.length) =
      { s with
        tmps := Function.update s.tmps sb.tyenv.length
          (dgBarWriteToTapeCall (eval (bitsInterp ext) s i1Lo) (eval (bitsInterp ext) s i1Hi)
            (eval (bitsInterp ext) s i2Lo) (eval (bitsInterp ext) s i2Hi)
            (eval (bitsInterp ext) s d1) (eval (bitsInterp ext) s d2) s.tool).1
        tool := (dgBarWriteToTapeCall (eval (bitsInterp ext) s i1Lo) (eval (bitsInterp ext) s i1Hi)
            (eval (bitsInterp ext) s i2Lo) (eval (bitsInterp ext) s i2Hi)
            (eval (bitsInterp ext) s d1) (eval (bitsInterp ext) s d2) s.tool).2 } := by
  rw [dgBarWriteToTape_stmts, execStmts_cons_of_running _ _ _ hs, execStmts_nil]
  simp only [execStmt, dirtyCall, bitsInterp_isTrue, eval, bitsConst, bitsInterp_const,
    Bool.toNat_true, beq_self_eq_true, if_true, callDirty_of_tool, IRCallee.isGuest, List.map,
    barToolCall, setTmp, bitsUnop]
  rfl

end Callbacks

/-! ## The shadow machine -/

/-- What the instrumented code and the tool do with shadow pairs, on registers standing for the
shadow temporaries: copy one (`dg_bar_wrtmp` of `dg_bar_rdtmp`), make the pair of a constant
(`dg_bar_constant`), store one to the layers (`dg_bar_store`), load one (`dg_bar_load`), record
an operation on two (`dg_bar_writeToTape`) with its partials, store the first four bytes of
each half (the `F80` store helpers), load four bytes of each layer into halves whose upper
four bytes are those of the helpers' locals `staleLo` and `staleHi` (the `F80` load helpers),
mark an address (`mark`, `fmark`, `lmark`, with the value read there), and set the index of an
address to the one in the client's `ULong` (`SET_INDEX`, `setIndexRequest_ulong`). -/
inductive ShadowOp where
  | copy (dst src : Nat)
  | constant (dst : Nat)
  | store (size : Nat) (addr : Addr) (src : Nat)
  | load (size : Nat) (addr : Addr) (dst : Nat)
  | record (dst a b : Nat) (diff1 diff2 : Nat)
  | storeF80le (addr : Addr) (src : Nat)
  | loadF80le (addr : Addr) (dst : Nat) (staleLo staleHi : Nat)
  | mark (barRecordValues : Bool) (addr : Addr) (value : Nat)
  | setIndex (addr : Addr) (index : Nat)
  deriving DecidableEq, Repr

/-- Shadow registers and the recording-mode state. -/
structure BarMachine where
  regs : Nat → Nat × Nat
  bar : BarState

/-- One shadow operation, with the helpers the instrumented code calls. -/
def ShadowOp.step : ShadowOp → BarMachine → BarMachine
  | .copy dst src, m => { m with regs := Function.update m.regs dst (m.regs src) }
  | .constant dst, m => { m with regs := Function.update m.regs dst (0, 0) }
  | .store size addr src, m =>
    { m with
      bar := (shadowStoreHelper .hi size addr (m.regs src).2
        (shadowStoreHelper .lo size addr (m.regs src).1 m.bar)) }
  | .load size addr dst, m =>
    { m with
      regs := (Function.update m.regs dst
        (shadowLoadHelper .lo size addr m.bar, shadowLoadHelper .hi size addr m.bar)) }
  | .record dst a b diff1 diff2, m =>
    let r := dgBarWriteToTapeCall (m.regs a).1 (m.regs a).2 (m.regs b).1 (m.regs b).2 diff1 diff2 m.bar
    { regs := Function.update m.regs dst (indexPair r.1), bar := r.2 }
  | .storeF80le addr src, m =>
    { m with
      bar := dgBarX86gAmd64gDirtyhelperStoreF80leHi addr (m.regs src).2
        (dgBarX86gAmd64gDirtyhelperStoreF80leLo addr (m.regs src).1 m.bar) }
  | .loadF80le addr dst staleLo staleHi, m =>
    { m with
      regs := Function.update m.regs dst
        (dgBarX86gAmd64gDirtyhelperLoadF80leLo staleLo addr m.bar,
          dgBarX86gAmd64gDirtyhelperLoadF80leHi staleHi addr m.bar) }
  | .mark barRecordValues addr value, m =>
    { m with bar := (markCommand barRecordValues value m.bar addr).2 }
  | .setIndex addr index, m =>
    { m with
      bar := dgBarShadowSet m.bar addr (some ((ulongBytes index).take 4))
        (some ((ulongBytes index).drop 4)) }

/-- `SET_INDEX` with the client's `ULong` at `iaddr` holding `index`. -/
theorem setIndexRequest_ulong (st : BarState) (mem : Addr → UInt8) (addr iaddr : Addr) (index : Nat) :
    setIndexRequest st (writeBytes mem iaddr (ulongBytes index)) addr iaddr =
      dgBarShadowSet st addr (some ((ulongBytes index).take 4)) (some ((ulongBytes index).drop 4)) := by
  obtain ⟨h₁, h₂⟩ := readBytes_writeBytes_ulong mem iaddr index
  simp only [setIndexRequest, h₁, h₂]

/-- A run of shadow operations. -/
def shadowRun (ops : List ShadowOp) (m : BarMachine) : BarMachine :=
  ops.foldl (fun m op => op.step m) m

@[simp] theorem shadowRun_nil (m : BarMachine) : shadowRun [] m = m := rfl

@[simp] theorem shadowRun_cons (op : ShadowOp) (ops : List ShadowOp) (m : BarMachine) :
    shadowRun (op :: ops) m = shadowRun ops (op.step m) := rfl

/-- The start of recording: every register holds the pair of a passive value. -/
def barMachineInit : BarMachine := ⟨fun _ => (0, 0), barInitialState⟩

/-- The index a recording assembles from a register: `dg_bar_writeToTape_call` reads the first
four bytes of each half. -/
def BarMachine.index (m : BarMachine) (r : Nat) : Nat := assembleIndex (m.regs r).1 (m.regs r).2

/-- At a recording, both operand indices are `0` or an index the tape has given out, so below
the index of the entry being recorded. -/
def ShadowOp.ReferencesEarlier : ShadowOp → BarMachine → Prop
  | .record _ a b _ _, m => m.index a ≤ m.bar.tape.length ∧ m.index b ≤ m.bar.tape.length
  | _, _ => True

/-- Every recording along a run references earlier entries only. -/
def ReferencesEarlier : List ShadowOp → BarMachine → Prop
  | [], _ => True
  | op :: ops, m => op.ReferencesEarlier m ∧ ReferencesEarlier ops (op.step m)

/-! ## Four-byte chunks -/

/-- Chunk `k` of a pair of shadow words: the index their `k`-th four bytes assemble to. -/
def chunkIndex (k : Nat) (p : Nat × Nat) : Nat :=
  assembleIndex (p.1 / 2 ^ (32 * k)) (p.2 / 2 ^ (32 * k))

/-- `dg_bar_writeToTape_call` reads four bytes of each half, so only their low 32 bits count. -/
theorem assembleIndex_mod (lo hi : Nat) :
    assembleIndex (lo % 2 ^ 32) (hi % 2 ^ 32) = assembleIndex lo hi := by
  simp only [assembleIndex_eq, Nat.mod_mod]

theorem chunkIndex_zero (p : Nat × Nat) : chunkIndex 0 p = assembleIndex p.1 p.2 := by
  simp [chunkIndex]

/-- The pair `dg_bar_writeToTape` makes of an index assembles to at most that index in every
chunk: to the index modulo `2 ^ 64` in the first, to `0` in the others. -/
theorem chunkIndex_indexPair (i : Nat) : ∀ k, chunkIndex k (indexPair i) ≤ i
  | 0 => by simp only [chunkIndex_zero, indexPair, assembleIndex_eq]; omega
  | k + 1 => by
    have hk : 2 ^ 32 ≤ 2 ^ (32 * (k + 1)) := Nat.pow_le_pow_right (by decide) (by omega)
    simp only [chunkIndex, indexPair, assembleIndex_eq,
      Nat.div_eq_of_lt (lt_of_lt_of_le (Nat.mod_lt i (by decide)) hk),
      Nat.div_eq_of_lt (lt_of_lt_of_le (Nat.mod_lt (i / 2 ^ 32) (by decide)) hk)]
    omega

theorem two_pow_chunk (k : Nat) : 2 ^ (32 * k) = 256 ^ (4 * k) := by
  rw [show (256 : Nat) = 2 ^ 8 from rfl, ← Nat.pow_mul]
  congr 1
  omega

/-- Chunk `k` of a value loaded from the layers, inside the load, is the aligned chunk at its
place. -/
theorem leNat_readBytes_chunk (m : Addr → UInt8) (a : Addr) {size k : Nat} (hk : 4 * k + 4 ≤ size) :
    leNat (readBytes m a size) / 2 ^ (32 * k) % 2 ^ 32 =
      leNat (readBytes m (a + BitVec.ofNat 64 (4 * k)) 4) := by
  obtain ⟨r, rfl⟩ : ∃ r, size = 4 * k + (4 + r) := ⟨size - (4 * k + 4), by omega⟩
  have hdiv := leNat_append_div (readBytes m a (4 * k))
    (readBytes m (a + BitVec.ofNat 64 (4 * k)) (4 + r))
  have hmod := leNat_append_mod (readBytes m (a + BitVec.ofNat 64 (4 * k)) 4)
    (readBytes m (a + BitVec.ofNat 64 (4 * k) + BitVec.ofNat 64 4) r)
  rw [length_readBytes] at hdiv hmod
  rw [readBytes_add, two_pow_chunk, hdiv, readBytes_add, show (2 : Nat) ^ 32 = 256 ^ 4 from rfl,
    hmod]

/-- Past the end of a load, its chunks are `0`. -/
theorem leNat_readBytes_chunk_of_le (m : Addr → UInt8) (a : Addr) {size k : Nat}
    (hk : size ≤ 4 * k) : leNat (readBytes m a size) / 2 ^ (32 * k) = 0 := by
  apply Nat.div_eq_of_lt
  calc leNat (readBytes m a size) < 256 ^ (readBytes m a size).length := leNat_lt _
    _ = 256 ^ size := by rw [length_readBytes]
    _ ≤ 256 ^ (4 * k) := Nat.pow_le_pow_right (by decide) hk
    _ = 2 ^ (32 * k) := (two_pow_chunk k).symm

/-- An aligned chunk of a layer after an aligned store: inside the store, the chunk of the
stored value at its place; outside, the chunk before. -/
theorem leNat_readBytes_writeBytes_chunk (m : Addr → UInt8) (a b : Addr) (v : Nat) {size : Nat}
    (hsize : size ≤ 32) (h4 : 4 ∣ size) (ha : 4 ∣ a.toNat) (hb : 4 ∣ b.toNat) :
    leNat (readBytes (writeBytes m a (leBytes v size)) b 4) =
      if (b - a).toNat < size then v / 2 ^ (8 * (b - a).toNat) % 2 ^ 32
      else leNat (readBytes m b 4) := by
  have hd : 4 ∣ (b - a).toNat := by bv_omega
  split_ifs with h
  · rw [readBytes_writeBytes_within _ _ _ _ _ (by simp only [length_leBytes]; omega)
      (by simp only [length_leBytes]; omega)]
    obtain ⟨r, hr⟩ : ∃ r, size = (b - a).toNat + (4 + r) := ⟨size - (b - a).toNat - 4, by omega⟩
    rw [hr, leBytes_add, List.drop_left' (length_leBytes _ _), leBytes_add,
      List.take_left' (length_leBytes _ _), leNat_leBytes, show (256 : Nat) = 2 ^ 8 from rfl,
      ← Nat.pow_mul]
    rfl
  · rw [readBytes_writeBytes_of_disjoint _ _ _ _ _ (by simp; omega) fun k hk => by
      simp only [length_leBytes]
      bv_omega]

/-! ## Safe shadow operations -/

/-- A shadow operation under which the index chunks stay valid: a shadow store or load at an
address and of a size that are multiples of four, the size at most that of `Ity_V256`; an `F80`
store or a mark at a multiple of four; an `F80` load at a multiple of four whose helpers'
locals hold zero in their upper halves; and no `SET_INDEX`. -/
def ShadowOp.Safe : ShadowOp → Prop
  | .store size addr _ | .load size addr _ => 4 ∣ size ∧ size ≤ 32 ∧ 4 ∣ addr.toNat
  | .storeF80le addr _ | .mark _ addr _ => 4 ∣ addr.toNat
  | .loadF80le addr _ staleLo staleHi =>
    4 ∣ addr.toNat ∧ staleLo / 2 ^ 32 % 2 ^ 32 = 0 ∧ staleHi / 2 ^ 32 % 2 ^ 32 = 0
  | .setIndex _ _ => False
  | .copy _ _ | .constant _ | .record _ _ _ _ _ => True

instance : DecidablePred ShadowOp.Safe
  | .store size addr _ | .load size addr _ =>
    inferInstanceAs (Decidable (4 ∣ size ∧ size ≤ 32 ∧ 4 ∣ addr.toNat))
  | .storeF80le addr _ | .mark _ addr _ => inferInstanceAs (Decidable (4 ∣ addr.toNat))
  | .loadF80le addr _ staleLo staleHi =>
    inferInstanceAs (Decidable (4 ∣ addr.toNat ∧ staleLo / 2 ^ 32 % 2 ^ 32 = 0 ∧
      staleHi / 2 ^ 32 % 2 ^ 32 = 0))
  | .setIndex _ _ => instDecidableFalse
  | .copy _ _ | .constant _ | .record _ _ _ _ _ => instDecidableTrue

/-- The `F80` store helpers store four bytes, as a four-byte shadow store does. -/
theorem storeF80leHelper_eq (layer : Layer) (addr : Addr) (v : Nat) (st : BarState) :
    storeF80leHelper layer addr v st = shadowStoreHelper layer 4 addr v st := by
  cases layer <;> simp only [storeF80leHelper, shadowStoreHelper, take_ulongBytes]

/-- An `F80` load helper whose local held zero in its upper half loads as a four-byte shadow load
does. -/
theorem loadF80leHelper_of_stale (layer : Layer) {stale : Nat} (h : stale / 2 ^ 32 % 2 ^ 32 = 0)
    (addr : Addr) (st : BarState) :
    loadF80leHelper layer stale addr st = shadowLoadHelper layer 4 addr st := by
  have hz : (ulongBytes stale).drop 4 = List.replicate 4 0 := by
    rw [drop_ulongBytes, ← leBytes_mod, show stale / 2 ^ 32 % 256 ^ 4 = 0 from h]
    rfl
  cases layer <;>
    simp only [loadF80leHelper, dgBarShadowGet, hz, leNat_append_zeros, shadowLoadHelper,
      BarState.layer]

theorem ulongBytes_halves (i : Nat) :
    (ulongBytes i).take 4 = leBytes (indexPair i).1 4 ∧
      (ulongBytes i).drop 4 = leBytes (indexPair i).2 4 := by
  rw [take_ulongBytes, drop_ulongBytes, indexPair, show (2 : Nat) ^ 32 = 256 ^ 4 from rfl,
    leBytes_mod, leBytes_mod]
  exact ⟨rfl, rfl⟩

/-- A marking command appends an entry and stores its index, as the pair `dg_bar_writeToTape`
makes of it, in four bytes of each layer. -/
theorem markCommand_layers (barRecordValues : Bool) (value : Nat) (st : BarState) (addr : Addr) :
    (markCommand barRecordValues value st addr).2.lo =
        writeBytes st.lo addr (leBytes (indexPair (st.tape.length + 1)).1 4) ∧
      (markCommand barRecordValues value st addr).2.hi =
        writeBytes st.hi addr (leBytes (indexPair (st.tape.length + 1)).2 4) ∧
      (markCommand barRecordValues value st addr).2.tape = st.tape ++ [⟨0, 0, 0, 0⟩] := by
  obtain ⟨h₁, h₂⟩ := ulongBytes_halves (st.tape.length + 1)
  simp only [markCommand, tapeAddStatementNoActivityAnalysis, dgBarShadowSet, Option.elim, h₁, h₂]
  split_ifs <;> exact ⟨rfl, rfl, rfl⟩

/-- An aligned chunk of the layers after an aligned store of the pair `p`: inside the store,
the chunk of `p` at its place; outside, the chunk before. -/
theorem chunk_writeBytes_pair (lo hi : Addr → UInt8) (p : Nat × Nat) {size : Nat} {addr b : Addr}
    (hsize : size ≤ 32) (h4 : 4 ∣ size) (ha : 4 ∣ addr.toNat) (hb : 4 ∣ b.toNat) :
    assembleIndex (leNat (readBytes (writeBytes lo addr (leBytes p.1 size)) b 4))
        (leNat (readBytes (writeBytes hi addr (leBytes p.2 size)) b 4)) =
      if (b - addr).toNat < size then chunkIndex ((b - addr).toNat / 4) p
      else assembleIndex (leNat (readBytes lo b 4)) (leNat (readBytes hi b 4)) := by
  rw [leNat_readBytes_writeBytes_chunk _ _ _ _ hsize h4 ha hb,
    leNat_readBytes_writeBytes_chunk _ _ _ _ hsize h4 ha hb]
  split_ifs
  · have hd : 4 ∣ (b - addr).toNat := by bv_omega
    rw [chunkIndex, show 32 * ((b - addr).toNat / 4) = 8 * (b - addr).toNat by omega,
      assembleIndex_mod]
  · rfl

/-- Every four-byte chunk of every register, and every aligned four-byte chunk of the layers,
is `0` or an index the tape has given out. -/
structure BarMachine.Valid (m : BarMachine) : Prop where
  regs : ∀ r k, chunkIndex k (m.regs r) ≤ m.bar.tape.length
  layers : ∀ a : Addr, 4 ∣ a.toNat →
    assembleIndex (shadowLoadHelper .lo 4 a m.bar) (shadowLoadHelper .hi 4 a m.bar) ≤
      m.bar.tape.length

/-- A layer nothing has been stored to reads `0` everywhere. -/
theorem shadowLoadHelper_barInitialState (layer : Layer) (size : Nat) (a : Addr) :
    shadowLoadHelper layer size a barInitialState = 0 := by
  have h : ∀ n (a : Addr), readBytes shadowInitializeMap a n = [] ++ List.replicate n 0 := by
    intro n
    induction n with
    | zero => intro; rfl
    | succ n ih => intro a; simp [readBytes, ih, shadowInitializeMap, List.replicate_succ]
  cases layer <;> simp only [shadowLoadHelper, BarState.layer, barInitialState, h,
    leNat_append_zeros] <;> rfl

theorem barMachineInit_valid : barMachineInit.Valid :=
  ⟨fun _ k => by simp [barMachineInit, chunkIndex, assembleIndex_eq],
    fun _ _ => by simp [barMachineInit, shadowLoadHelper_barInitialState, assembleIndex_eq]⟩

section Step

variable {m : BarMachine}

theorem BarMachine.Valid.update (hm : m.Valid) {p : Nat × Nat}
    (hp : ∀ k, chunkIndex k p ≤ m.bar.tape.length) (dst : Nat) :
    ({ m with regs := Function.update m.regs dst p } : BarMachine).Valid :=
  ⟨fun r k => by
    by_cases hr : r = dst
    · subst hr; simpa using hp k
    · simpa [Function.update_noteq hr] using hm.regs r k, hm.layers⟩

/-- An aligned store keeps every aligned chunk of the layers a chunk of a register or what it
was. -/
theorem BarMachine.Valid.store (hm : m.Valid) {size : Nat} {addr : Addr} (src : Nat)
    (h4 : 4 ∣ size) (hsize : size ≤ 32) (ha : 4 ∣ addr.toNat) :
    ((ShadowOp.store size addr src).step m).Valid := by
  refine ⟨fun r k => by simpa [ShadowOp.step] using hm.regs r k, fun b hb => ?_⟩
  simp only [ShadowOp.step, shadowLoadHelper, BarState.layer, shadowStoreHelper_hi_lo,
    shadowStoreHelper_hi_hi, shadowStoreHelper_lo_lo, shadowStoreHelper_lo_hi,
    shadowStoreHelper_tape, chunk_writeBytes_pair _ _ (m.regs src) hsize h4 ha hb]
  split_ifs
  · exact hm.regs src _
  · exact hm.layers b hb

/-- An aligned load gives its register the aligned chunks of the layers it covers, and `0` past
its end. -/
theorem BarMachine.Valid.load (hm : m.Valid) {size : Nat} {addr : Addr} (dst : Nat)
    (h4 : 4 ∣ size) (ha : 4 ∣ addr.toNat) : ((ShadowOp.load size addr dst).step m).Valid := by
  refine hm.update (fun k => ?_) dst
  simp only [chunkIndex, shadowLoadHelper, BarState.layer]
  by_cases hk : 4 * k + 4 ≤ size
  · rw [← assembleIndex_mod, leNat_readBytes_chunk _ _ hk, leNat_readBytes_chunk _ _ hk]
    exact hm.layers _ (by bv_omega)
  · rw [leNat_readBytes_chunk_of_le _ _ (by omega), leNat_readBytes_chunk_of_le _ _ (by omega)]
    simp [assembleIndex_eq]

/-- A recording reads operand indices of at most the tape's length, and gives its register the
pair of the index it returns: `0`, or the tape's new length. -/
theorem BarMachine.Valid.record (hm : m.Valid) (dst a b diff1 diff2 : Nat) :
    (ShadowOp.record dst a b diff1 diff2).ReferencesEarlier m ∧
      ((ShadowOp.record dst a b diff1 diff2).step m).Valid := by
  refine ⟨⟨by simpa [BarMachine.index, chunkIndex_zero] using hm.regs a 0,
    by simpa [BarMachine.index, chunkIndex_zero] using hm.regs b 0⟩, ?_⟩
  rcases tapeAddStatement_cases (assembleIndex (m.regs a).1 (m.regs a).2)
    (assembleIndex (m.regs b).1 (m.regs b).2) diff1 diff2 m.bar with h | h
  · simp only [ShadowOp.step, dgBarWriteToTapeCall, h]
    exact hm.update (fun k => (chunkIndex_indexPair 0 k).trans (Nat.zero_le _)) dst
  · simp only [ShadowOp.step, dgBarWriteToTapeCall, h, tapeAddStatementNoActivityAnalysis]
    refine ⟨fun r k => ?_, fun c hc => (hm.layers c hc).trans (by simp)⟩
    by_cases hr : r = dst
    · subst hr
      simpa using chunkIndex_indexPair (m.bar.tape.length + 1) k
    · simpa [Function.update_noteq hr] using (hm.regs r k).trans (Nat.le_succ _)

/-- The `F80` store helpers, at a multiple of four, act as a four-byte store. -/
theorem BarMachine.Valid.storeF80le (hm : m.Valid) {addr : Addr} (src : Nat)
    (ha : 4 ∣ addr.toNat) : ((ShadowOp.storeF80le addr src).step m).Valid := by
  simpa only [ShadowOp.step, dgBarX86gAmd64gDirtyhelperStoreF80leHi,
    dgBarX86gAmd64gDirtyhelperStoreF80leLo, storeF80leHelper_eq]
    using hm.store src (dvd_refl 4) (by decide) ha

/-- The `F80` load helpers, at a multiple of four and with locals zero in their upper halves,
act as a four-byte load. -/
theorem BarMachine.Valid.loadF80le (hm : m.Valid) {addr : Addr} (dst : Nat) {staleLo staleHi : Nat}
    (ha : 4 ∣ addr.toNat) (hLo : staleLo / 2 ^ 32 % 2 ^ 32 = 0)
    (hHi : staleHi / 2 ^ 32 % 2 ^ 32 = 0) :
    ((ShadowOp.loadF80le addr dst staleLo staleHi).step m).Valid := by
  simpa only [ShadowOp.step, dgBarX86gAmd64gDirtyhelperLoadF80leLo,
    dgBarX86gAmd64gDirtyhelperLoadF80leHi, loadF80leHelper_of_stale _ hLo,
    loadF80leHelper_of_stale _ hHi] using hm.load dst (dvd_refl 4) ha

/-- A mark at a multiple of four stores the index of the entry it appends. -/
theorem BarMachine.Valid.mark (hm : m.Valid) (barRecordValues : Bool) {addr : Addr} (value : Nat)
    (ha : 4 ∣ addr.toNat) : ((ShadowOp.mark barRecordValues addr value).step m).Valid := by
  obtain ⟨hlo, hhi, htape⟩ := markCommand_layers barRecordValues value m.bar addr
  refine ⟨fun r k => ?_, fun b hb => ?_⟩
  · simp only [ShadowOp.step, htape, List.length_append, List.length_singleton]
    exact (hm.regs r k).trans (Nat.le_succ _)
  · simp only [ShadowOp.step, shadowLoadHelper, BarState.layer, hlo, hhi, htape,
      List.length_append, List.length_singleton,
      chunk_writeBytes_pair _ _ _ (by decide : 4 ≤ 32) (dvd_refl 4) ha hb]
    split_ifs
    · exact chunkIndex_indexPair _ _
    · exact (hm.layers b hb).trans (Nat.le_succ _)

/-- One safe shadow operation keeps the machine valid, and a recording references earlier
entries only. -/
theorem BarMachine.Valid.step (hm : m.Valid) :
    ∀ op : ShadowOp, op.Safe → op.ReferencesEarlier m ∧ (op.step m).Valid
  | .copy dst src, _ => ⟨trivial, hm.update (hm.regs src) dst⟩
  | .constant dst, _ => ⟨trivial, hm.update (fun k => by simp [chunkIndex, assembleIndex_eq]) dst⟩
  | .store _ _ src, ⟨h4, hsize, ha⟩ => ⟨trivial, hm.store src h4 hsize ha⟩
  | .load _ _ dst, ⟨h4, _, ha⟩ => ⟨trivial, hm.load dst h4 ha⟩
  | .record dst a b diff1 diff2, _ => hm.record dst a b diff1 diff2
  | .storeF80le _ src, ha => ⟨trivial, hm.storeF80le src ha⟩
  | .loadF80le _ dst _ _, ⟨ha, hLo, hHi⟩ => ⟨trivial, hm.loadF80le dst ha hLo hHi⟩
  | .mark rv _ value, ha => ⟨trivial, hm.mark rv value ha⟩
  | .setIndex _ _, h => h.elim

end Step

/-- Along a run of safe shadow operations from a valid machine, every recording references
earlier entries only, and the machine stays valid. -/
theorem BarMachine.Valid.run :
    ∀ (ops : List ShadowOp) {m : BarMachine}, m.Valid → (∀ op ∈ ops, op.Safe) →
      ReferencesEarlier ops m ∧ (shadowRun ops m).Valid
  | [], _, hm, _ => ⟨trivial, hm⟩
  | op :: ops, _, hm, hal =>
    have h := hm.step op (hal op (List.mem_cons_self _ _))
    have ih := BarMachine.Valid.run ops h.2 fun o ho => hal o (List.mem_cons_of_mem _ ho)
    ⟨⟨h.1, ih.1⟩, ih.2⟩

/-- In recording mode, with typegrind off, no `SET_INDEX` request, every shadow store and load
at an address and of a size that are multiples of four, every `F80` access and mark at a
multiple of four, and zero in the upper halves of the `F80` load helpers' locals, every operand
index a recording reassembles from the first four bytes of its shadow values is `0` or an index
`tapeAddStatement` has already returned, so below the index of the entry being recorded. -/
theorem shadowRun_referencesEarlier (ops : List ShadowOp) (hal : ∀ op ∈ ops, op.Safe) :
    ReferencesEarlier ops barMachineInit :=
  (barMachineInit_valid.run ops hal).1

/- Without the alignment, a shadow load can read across the bytes of two shadow values and
reassemble an index no call returned. The statements the callbacks emit for recording a value
(index `1`), storing its shadow pair at `0x1000`, loading a `double` from `0xFFF` and recording
an operation on it, run from the start of recording, append a second entry whose first operand
is index `256`, while the tape held one entry before it. -/
example :
    let r₁ := dgBarWriteToTape ⟨[], [], .const (.u64 0)⟩ (.const (.u64 0)) (.const (.u64 0))
      (.const (.u64 0)) (.const (.u64 0)) (.const (.f64i 0x3FF0000000000000)) (.const (.f64i 0))
    let sb₂ := dgBarStore r₁.2 (.const (.u64 0x1000)) r₁.1 (.const (.u1 true))
    let r₃ := dgBarLoad sb₂ (.const (.u64 0xFFF)) .f64
    let r₄ := dgBarWriteToTape r₃.2 r₃.1.1 r₃.1.2 (.const (.u64 0)) (.const (.u64 0))
      (.const (.f64i 0x3FF0000000000000)) (.const (.f64i 0))
    (execStmts (bitsInterp Interp.inertBits) (barToolCall fun _ => 0) r₄.2.tyenv
        ⟨fun _ => 0, fun _ => 0, fun _ => 0, barInitialState, none⟩ r₄.2.stmts).tool.tape =
      [⟨0, 0, 0x3FF0000000000000, 0⟩, ⟨256, 0, 0x3FF0000000000000, 0⟩] := by
  decide

/-! ## The callbacks refine the machine -/

/-- Callback code that moves the shadow pairs of original temporaries, as the statement handler
emits it: `dg_bar_wrtmp` of `dg_bar_rdtmp` (a copy) or of `dg_bar_constant`, an unguarded
`dg_bar_store` of `dg_bar_rdtmp`, `dg_bar_wrtmp` of `dg_bar_load`, `dg_bar_wrtmp` of
`dg_bar_writeToTape` on two `dg_bar_rdtmp` and two partials, and the two `F80` helpers. -/
inductive ShadowCode where
  | copy (dst src : Nat)
  | constant (dst : Nat) (c : IRConst)
  | store (addr : IRExpr) (src : Nat)
  | load (addr : IRExpr) (type : IRType) (dst : Nat)
  | record (dst a b : Nat) (diff1 diff2 : IRExpr)
  | storeF80le (addr : IRExpr) (src : Nat)
  | loadF80le (addr : IRExpr) (dst : Nat)

section Code

variable (env : DiffEnv)

/-- The block after the callbacks of a piece. -/
def ShadowCode.emit (sb : IRSB) : ShadowCode → IRSB
  | .copy dst src => dgBarWrtmp env dst (dgBarRdtmp env src) sb
  | .constant dst c => dgBarWrtmp env dst (dgBarConstant c) sb
  | .store addr src => dgBarStore sb addr (dgBarRdtmp env src) (.const (.u1 true))
  | .load addr type dst =>
    let r := dgBarLoad sb addr type
    dgBarWrtmp env dst r.1 r.2
  | .record dst a b diff1 diff2 =>
    let r := dgBarWriteToTape sb (dgBarRdtmp env a).1 (dgBarRdtmp env a).2 (dgBarRdtmp env b).1
      (dgBarRdtmp env b).2 diff1 diff2
    dgBarWrtmp env dst r.1 r.2
  | .storeF80le addr src => dgBarDirtyStoreF80le sb addr (dgBarRdtmp env src)
  | .loadF80le addr dst => dgBarDirtyLoadF80le env sb addr dst

/-- Pieces emitted one after the other. -/
def ShadowCode.emitAll (sb : IRSB) (cs : List ShadowCode) : IRSB :=
  cs.foldl (fun sb c => c.emit env sb) sb

/-- What a piece needs of its arguments: the temporaries it names are original ones, and an
address it evaluates again after writing a temporary reads original temporaries only. -/
def ShadowCode.Fits : ShadowCode → Prop
  | .copy dst src => dst < env.tOffset ∧ src < env.tOffset
  | .constant dst _ => dst < env.tOffset
  | .store _ src | .storeF80le _ src => src < env.tOffset
  | .load addr _ dst | .loadF80le addr dst => addr.tmpsBelow env.tOffset ∧ dst < env.tOffset
  | .record dst a b _ _ => dst < env.tOffset ∧ a < env.tOffset ∧ b < env.tOffset

/-- A block with the layout of `dg_instrument`: the shadow temporaries of the original ones,
both shadows of a temporary of one type. -/
def ShadowBlock (sb : IRSB) : Prop :=
  3 * env.tOffset ≤ sb.tyenv.length ∧
    ∀ t < env.tOffset,
      sb.tyenv.getD (t + env.tOffset) .i64 = sb.tyenv.getD (t + 2 * env.tOffset) .i64

theorem ShadowCode.emit_grows (tyenv : List IRType) {sb : IRSB} (hn : env.tOffset ≤ sb.tyenv.length) :
    ∀ c : ShadowCode, Grows (IRStmt.barShadowOnly env.tOffset env.totalSizeB tyenv) sb (c.emit env sb)
  | .copy dst _ | .constant dst _ => BarCallback.emit_grows env tyenv hn (.wrtmp dst _) trivial
  | .store addr _ => BarCallback.emit_grows env tyenv hn (.store addr _ _) trivial
  | .load addr type dst =>
    have h := BarCallback.emit_grows env tyenv hn (.load addr type) trivial
    h.trans (BarCallback.emit_grows env tyenv (hn.trans h.length_le) (.wrtmp dst _) trivial)
  | .record dst _ _ diff1 diff2 =>
    have h := BarCallback.emit_grows env tyenv hn (.writeToTape _ _ _ _ diff1 diff2) trivial
    h.trans (BarCallback.emit_grows env tyenv (hn.trans h.length_le) (.wrtmp dst _) trivial)
  | .storeF80le addr _ => BarCallback.emit_grows env tyenv hn (.storeF80le addr _) trivial
  | .loadF80le addr dst => BarCallback.emit_grows env tyenv hn (.loadF80le addr dst) trivial

theorem ShadowBlock.grows {P : IRStmt → Prop} {sb sb' : IRSB} (h : ShadowBlock env sb)
    (hg : Grows P sb sb') : ShadowBlock env sb' := by
  obtain ⟨h3, hty⟩ := h
  obtain ⟨⟨extra, he⟩, -⟩ := hg
  have hget : ∀ t < sb.tyenv.length, sb'.tyenv.getD t .i64 = sb.tyenv.getD t .i64 := fun t ht => by
    simp only [he, List.getD_eq_getElem?_getD, List.getElem?_append_left ht]
  refine ⟨by rw [he, List.length_append]; omega, fun t ht => ?_⟩
  rw [hget _ (by omega), hget _ (by omega)]
  exact hty t ht

@[simp] theorem ShadowCode.emitAll_nil (sb : IRSB) : ShadowCode.emitAll env sb [] = sb := rfl

@[simp] theorem ShadowCode.emitAll_cons (sb : IRSB) (c : ShadowCode) (cs : List ShadowCode) :
    ShadowCode.emitAll env sb (c :: cs) = ShadowCode.emitAll env (c.emit env sb) cs := rfl

theorem ShadowCode.emitAll_grows (tyenv : List IRType) :
    ∀ (cs : List ShadowCode) {sb : IRSB}, env.tOffset ≤ sb.tyenv.length →
      Grows (IRStmt.barShadowOnly env.tOffset env.totalSizeB tyenv) sb (ShadowCode.emitAll env sb cs)
  | [], sb, _ => Grows.refl sb
  | c :: cs, _, hn =>
    have h := c.emit_grows env tyenv hn
    h.trans (ShadowCode.emitAll_grows tyenv cs (hn.trans h.length_le))

variable (ext : Interp Nat) (stale : Layer → Nat) (tyenv : List IRType)

/-- The shadow operation a piece performs run from state `s` in a block of types `types`: the
addresses and partials evaluated, a shadow store of the size of its shadow's type, and the
`F80` load helpers' locals as `stale` says. -/
def ShadowCode.op (types : List IRType) (s : State Nat BarState) : ShadowCode → ShadowOp
  | .copy dst src => .copy dst src
  | .constant dst _ => .constant dst
  | .store addr src =>
    .store (sizeofIRType (types.getD (src + env.tOffset) .i64))
      (BitVec.ofNat 64 (eval (bitsInterp ext) s addr)) src
  | .load addr type dst =>
    .load (sizeofIRType type) (BitVec.ofNat 64 (eval (bitsInterp ext) s addr)) dst
  | .record dst a b diff1 diff2 =>
    .record dst a b (eval (bitsInterp ext) s diff1) (eval (bitsInterp ext) s diff2)
  | .storeF80le addr src => .storeF80le (BitVec.ofNat 64 (eval (bitsInterp ext) s addr)) src
  | .loadF80le addr dst =>
    .loadF80le (BitVec.ofNat 64 (eval (bitsInterp ext) s addr)) dst (stale .lo) (stale .hi)

/-- The state after the statements a piece appends to `sb`, run from `s`. -/
def ShadowCode.exec (sb : IRSB) (s : State Nat BarState) (c : ShadowCode) : State Nat BarState :=
  execStmts (bitsInterp ext) (barToolCall stale) tyenv s ((c.emit env sb).stmts.drop sb.stmts.length)

/-- The shadow operations a run of pieces performs, each from the state the run has reached. -/
def shadowCodeOps : IRSB → State Nat BarState → List ShadowCode → List ShadowOp
  | _, _, [] => []
  | sb, s, c :: cs =>
    c.op env ext stale sb.tyenv s :: shadowCodeOps (c.emit env sb) (c.exec env ext stale tyenv sb s) cs

/-- At a recording piece run from `s`, both operand indices that `dg_bar_writeToTape_call`
assembles from the shadow temporaries are at most the length of the tape: `0` or an index
`tapeAddStatement` has returned. -/
def ShadowCode.ReferencesEarlier (s : State Nat BarState) : ShadowCode → Prop
  | .record _ a b _ _ =>
    assembleIndex (s.tmps (a + env.tOffset)) (s.tmps (a + 2 * env.tOffset)) ≤ s.tool.tape.length ∧
      assembleIndex (s.tmps (b + env.tOffset)) (s.tmps (b + 2 * env.tOffset)) ≤ s.tool.tape.length
  | _ => True

/-- Every recording piece along a run of pieces references earlier entries only. -/
def CodeReferencesEarlier : IRSB → State Nat BarState → List ShadowCode → Prop
  | _, _, [] => True
  | sb, s, c :: cs =>
    c.ReferencesEarlier env s ∧
      CodeReferencesEarlier (c.emit env sb) (c.exec env ext stale tyenv sb s) cs

/-- The shadow temporaries `t + n` and `t + 2 * n` of the original temporaries `t < n` hold the
machine's registers, and the tool state is the machine's. -/
structure ShadowRegs (n : Nat) (s : State Nat BarState) (m : BarMachine) : Prop where
  regs : ∀ t < n, m.regs t = (s.tmps (t + n), s.tmps (t + 2 * n))
  bar : m.bar = s.tool

/-- The registers after the shadows of `dst` take the pair `(v₁, v₂)`, the temporaries from
`3 * n` on changing as they may. -/
theorem ShadowRegs.update_regs {n : Nat} {s : State Nat BarState} {m : BarMachine}
    (h : ShadowRegs n s m) {g : Nat → Nat} (hg : ∀ t < 3 * n, g t = s.tmps t) {dst : Nat}
    (hdst : dst < n) (v₁ v₂ : Nat) :
    ∀ t < n, Function.update m.regs dst (v₁, v₂) t =
      (Function.update (Function.update g (dst + n) v₁) (dst + 2 * n) v₂ (t + n),
        Function.update (Function.update g (dst + n) v₁) (dst + 2 * n) v₂ (t + 2 * n)) := by
  intro t ht
  by_cases htd : t = dst
  · subst htd
    rw [Function.update_same, Function.update_noteq (by omega), Function.update_same,
      Function.update_same]
  · rw [Function.update_noteq htd, h.regs t ht, Function.update_noteq (by omega),
      Function.update_noteq (by omega), Function.update_noteq (by omega),
      Function.update_noteq (by omega), hg _ (by omega), hg _ (by omega)]

/-- A constant's shadow pair is `(0, 0)`. -/
theorem eval_dgBarConstant_fst (c : IRConst) (s : State Nat BarState) :
    eval (bitsInterp ext) s (dgBarConstant c).1 = 0 := by
  cases c <;> rfl

theorem eval_dgBarConstant_snd (c : IRConst) (s : State Nat BarState) :
    eval (bitsInterp ext) s (dgBarConstant c).2 = 0 := by
  cases c <;> rfl

/-- The pair `dg_bar_rdtmp` reads. -/
@[simp] theorem eval_dgBarRdtmp_fst (t : Nat) (s : State Nat BarState) :
    eval (bitsInterp ext) s (dgBarRdtmp env t).1 = s.tmps (t + env.tOffset) := rfl

@[simp] theorem eval_dgBarRdtmp_snd (t : Nat) (s : State Nat BarState) :
    eval (bitsInterp ext) s (dgBarRdtmp env t).2 = s.tmps (t + 2 * env.tOffset) := rfl

/-- The statements of `dg_bar_wrtmp`, after those of a block `sb'` that extends `sb`. -/
theorem dgBarWrtmp_stmts_drop {sb sb' : IRSB} (h : sb.stmts.length ≤ sb'.stmts.length) (dst : Nat)
    (e : IRExpr × IRExpr) :
    (dgBarWrtmp env dst e sb').stmts.drop sb.stmts.length =
      sb'.stmts.drop sb.stmts.length ++
        [.wrTmp (dst + env.tOffset) e.1, .wrTmp (dst + 2 * env.tOffset) e.2] := by
  simp [dgBarWrtmp, List.drop_append_of_le_length h]

variable {env}

/-- **One piece of callback code is one machine step.** Run from a running state whose shadow
temporaries and tool state the machine holds, the statements a piece appends keep running and
leave shadow temporaries and a tool state that the machine holds after the piece's shadow
operation. -/
theorem ShadowCode.simulates {sb : IRSB} (hsb : ShadowBlock env sb) {c : ShadowCode}
    (hc : c.Fits env) {s : State Nat BarState} (hs : s.exit = none) {m : BarMachine}
    (h : ShadowRegs env.tOffset s m) :
    (c.exec env ext stale tyenv sb s).exit = none ∧
      ShadowRegs env.tOffset (c.exec env ext stale tyenv sb s) ((c.op env ext stale sb.tyenv s).step m) := by
  obtain ⟨hn, hty⟩ := hsb
  cases c with
  | copy dst src =>
    obtain ⟨hdst, hsrc⟩ := hc
    have hne : src + 2 * env.tOffset ≠ dst + env.tOffset := by omega
    simp only [ShadowCode.exec, ShadowCode.emit, ShadowCode.op, dgBarWrtmp, addStmtToIRSB_stmts,
      List.append_assoc, List.singleton_append, List.drop_left, execStmts, execStmt, hs,
      eval_dgBarRdtmp_fst, eval_dgBarRdtmp_snd, Function.update_noteq hne, ShadowOp.step,
      h.regs src hsrc]
    exact ⟨trivial, h.update_regs (fun _ _ => rfl) hdst _ _, h.bar⟩
  | constant dst c =>
    simp only [ShadowCode.exec, ShadowCode.emit, ShadowCode.op, dgBarWrtmp, addStmtToIRSB_stmts,
      List.append_assoc, List.singleton_append, List.drop_left, execStmts, execStmt, hs,
      eval_dgBarConstant_fst, eval_dgBarConstant_snd, ShadowOp.step]
    exact ⟨trivial, h.update_regs (fun _ _ => rfl) hc 0 0, h.bar⟩
  | store addr src =>
    have hsize : sizeofIRType ((dgBarRdtmp env src).2.type sb.tyenv) =
        sizeofIRType (sb.tyenv.getD (src + env.tOffset) .i64) := by
      rw [hty src hc]; rfl
    have he := execStmts_dgBarStore ext stale tyenv sb addr (dgBarRdtmp env src) (.const (.u1 true))
      hs rfl
    rw [hsize] at he
    simp only [ShadowCode.exec, ShadowCode.emit, ShadowCode.op, he, ShadowOp.step]
    exact ⟨hs, h.regs, by rw [h.bar, h.regs src hc]; rfl⟩
  | load addr type dst =>
    obtain ⟨haddr, hdst⟩ := hc
    obtain ⟨hr, he⟩ := execStmts_dgBarLoad ext stale tyenv sb addr type (haddr.mono (by omega)) hs
    have hle : sb.stmts.length ≤ (dgBarLoad sb addr type).2.stmts.length := by
      simp [dgBarLoad, loadShadowMemory]
    simp only [ShadowCode.exec, ShadowCode.emit, ShadowCode.op, dgBarWrtmp_stmts_drop env hle,
      execStmts_append, he, hr, execStmts, execStmt, eval, hs, ShadowOp.step]
    refine ⟨trivial, fun t ht => ?_, h.bar⟩
    have hL₁ : sb.tyenv.length ≠ sb.tyenv.length + 1 := by omega
    have hL₂ : sb.tyenv.length + 1 ≠ dst + env.tOffset := by omega
    simp only [Function.update_noteq hL₁, Function.update_noteq hL₂, Function.update_same, h.bar]
    exact h.update_regs (fun t ht => by rw [Function.update_noteq (by omega),
      Function.update_noteq (by omega)]) hdst _ _ t ht
  | record dst a b diff1 diff2 =>
    obtain ⟨hdst, ha, hb⟩ := hc
    have hle : sb.stmts.length ≤ (dgBarWriteToTape sb (dgBarRdtmp env a).1 (dgBarRdtmp env a).2
        (dgBarRdtmp env b).1 (dgBarRdtmp env b).2 diff1 diff2).2.stmts.length := by
      simp [dgBarWriteToTape, newIRTemp]
    have hW := fun s' => Prod.ext_iff.mp (eval_dgBarWriteToTape ext sb (dgBarRdtmp env a).1
      (dgBarRdtmp env a).2 (dgBarRdtmp env b).1 (dgBarRdtmp env b).2 diff1 diff2 s')
    dsimp only at hW
    have hL : sb.tyenv.length ≠ dst + env.tOffset := by omega
    simp only [ShadowCode.exec, ShadowCode.emit, ShadowCode.op, dgBarWrtmp_stmts_drop env hle,
      execStmts_append, execStmts_dgBarWriteToTape ext stale tyenv sb _ _ _ _ _ _ hs, execStmts,
      execStmt, (hW _).1, (hW _).2, Function.update_same, Function.update_noteq hL,
      eval_dgBarRdtmp_fst, eval_dgBarRdtmp_snd, ShadowOp.step, h.regs a ha, h.regs b hb, h.bar, hs]
    refine ⟨trivial, fun t ht => ?_, rfl⟩
    exact h.update_regs (fun t ht => Function.update_noteq (by omega) _ _) hdst _ _ t ht
  | storeF80le addr src =>
    simp only [ShadowCode.exec, ShadowCode.emit, ShadowCode.op,
      execStmts_dgBarDirtyStoreF80le ext stale tyenv sb addr _ hs, ShadowOp.step]
    exact ⟨hs, h.regs, by rw [h.bar, h.regs src hc]; rfl⟩
  | loadF80le addr dst =>
    obtain ⟨haddr, hdst⟩ := hc
    simp only [ShadowCode.exec, ShadowCode.emit, ShadowCode.op,
      execStmts_dgBarDirtyLoadF80le ext stale tyenv env sb addr dst haddr hs, ShadowOp.step, h.bar]
    exact ⟨hs, h.update_regs (fun _ _ => rfl) hdst _ _, rfl⟩

/-- **A run of callback code simulates the machine's run.** The statements a list of pieces
appends, run from a running state whose shadow temporaries and tool state the machine holds,
keep running and leave shadow temporaries and a tool state that the machine holds after the
pieces' shadow operations. -/
theorem shadowCode_run_simulates (cs : List ShadowCode) {sb : IRSB} (hsb : ShadowBlock env sb)
    (hc : ∀ c ∈ cs, c.Fits env) {s : State Nat BarState} (hs : s.exit = none) {m : BarMachine}
    (h : ShadowRegs env.tOffset s m) :
    (execStmts (bitsInterp ext) (barToolCall stale) tyenv s
        ((ShadowCode.emitAll env sb cs).stmts.drop sb.stmts.length)).exit = none ∧
      ShadowRegs env.tOffset
        (execStmts (bitsInterp ext) (barToolCall stale) tyenv s
          ((ShadowCode.emitAll env sb cs).stmts.drop sb.stmts.length))
        (shadowRun (shadowCodeOps env ext stale tyenv sb s cs) m) := by
  induction cs generalizing sb s m with
  | nil => simpa using ⟨hs, h⟩
  | cons c cs ih =>
    have hn : env.tOffset ≤ sb.tyenv.length := by have := hsb.1; omega
    have hg := c.emit_grows env tyenv hn
    obtain ⟨hs₁, h₁⟩ := ShadowCode.simulates ext stale tyenv hsb (hc c (List.mem_cons_self _ _)) hs h
    rw [ShadowCode.emitAll_cons,
      hg.drop_append (ShadowCode.emitAll_grows env tyenv cs (hn.trans hg.length_le)),
      execStmts_append]
    exact ih (hsb.grows env hg) (fun c' h' => hc c' (List.mem_cons_of_mem _ h')) hs₁ h₁

/-- A recording piece passes `dg_bar_writeToTape_call` the operand indices the machine's
recording reads. -/
theorem ShadowCode.referencesEarlier_iff {c : ShadowCode} (hc : c.Fits env) (types : List IRType)
    {s : State Nat BarState} {m : BarMachine} (h : ShadowRegs env.tOffset s m) :
    c.ReferencesEarlier env s ↔ (c.op env ext stale types s).ReferencesEarlier m := by
  cases c with
  | record dst a b diff1 diff2 =>
    obtain ⟨-, ha, hb⟩ := hc
    simp only [ShadowCode.ReferencesEarlier, ShadowCode.op, ShadowOp.ReferencesEarlier,
      BarMachine.index, h.regs a ha, h.regs b hb, h.bar]
  | _ => exact Iff.rfl

/-- Along a run of pieces, the recordings of the callback code reference earlier entries only
exactly when those of the machine's run do. -/
theorem codeReferencesEarlier_iff (cs : List ShadowCode) {sb : IRSB} (hsb : ShadowBlock env sb)
    (hc : ∀ c ∈ cs, c.Fits env) {s : State Nat BarState} (hs : s.exit = none) {m : BarMachine}
    (h : ShadowRegs env.tOffset s m) :
    CodeReferencesEarlier env ext stale tyenv sb s cs ↔
      ReferencesEarlier (shadowCodeOps env ext stale tyenv sb s cs) m := by
  induction cs generalizing sb s m with
  | nil => exact Iff.rfl
  | cons c cs ih =>
    have hc₀ := hc c (List.mem_cons_self _ _)
    have hn : env.tOffset ≤ sb.tyenv.length := by have := hsb.1; omega
    obtain ⟨hs₁, h₁⟩ := ShadowCode.simulates ext stale tyenv hsb hc₀ hs h
    exact and_congr (ShadowCode.referencesEarlier_iff ext stale hc₀ sb.tyenv h)
      (ih (hsb.grows env (c.emit_grows env tyenv hn)) (fun c' h' => hc c' (List.mem_cons_of_mem _ h'))
        hs₁ h₁)

/-- **Recording code references earlier entries.** Callback code run from the start of
recording, with passive pairs in the shadow temporaries, passes `dg_bar_writeToTape_call` at
every recording operand indices that are `0` or returned before, when its shadow operations are
safe. -/
theorem shadowCode_referencesEarlier (cs : List ShadowCode) {sb : IRSB} (hsb : ShadowBlock env sb)
    (hc : ∀ c ∈ cs, c.Fits env) {s : State Nat BarState} (hs : s.exit = none)
    (h : ShadowRegs env.tOffset s barMachineInit)
    (hsafe : ∀ op ∈ shadowCodeOps env ext stale tyenv sb s cs, op.Safe) :
    CodeReferencesEarlier env ext stale tyenv sb s cs :=
  (codeReferencesEarlier_iff ext stale tyenv cs hsb hc hs h).mpr
    (shadowRun_referencesEarlier _ hsafe)

end Code

/-- The stale upper halves of the `F80` load helpers' locals reach the tape. The callbacks of
an x87 load of `t0 : F64` from `0x1000`, of its store to `0x2000`, of a load of `t1 : F32` from
`0x2004` and of recording `t2 = t1 + t1`, run from the start of recording with `5` in the upper
half of the `Lo` helper's local, append an entry with operand index `5` as the first entry of
the tape. -/
theorem f80StaleBytes_reference_unreturned :
    (execStmts (bitsInterp Interp.inertBits) (barToolCall fun l => if l = .lo then 0x500000000 else 0)
        [] ⟨fun _ => 0, fun _ => 0, fun _ => 0, barInitialState, none⟩
        (ShadowCode.emitAll ⟨3, 16⟩
          ⟨[.f64, .f32, .f64, .f64, .f32, .f64, .f64, .f32, .f64], [], .const (.u64 0)⟩
          [.loadF80le (.const (.u64 0x1000)) 0, .store (.const (.u64 0x2000)) 0,
            .load (.const (.u64 0x2004)) .f32 1,
            .record 2 1 1 (.const (.f64i 0x3FF0000000000000)) (.const (.f64i 0x3FF0000000000000))]).stmts).tool.tape =
      [⟨5, 5, 0x3FF0000000000000, 0x3FF0000000000000⟩] := by
  decide

end Derivgrind
