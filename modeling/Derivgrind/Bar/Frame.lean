import Derivgrind.Bar.Instrument
import Derivgrind.Bar.Record
import Derivgrind.Nulgrind.Frame

/-!
# Derivgrind.Bar.Frame

Recording-mode instrumentation leaves the original computation alone. `dg_instrument` gives
every temporary `t` of the input block two shadow temporaries `t + n` and `t + 2 * n` of its
type (`n` temporaries in the input), after which the callbacks allocate their helper
temporaries; the shadow copies of the guest state sit at offsets `total` and `2 * total`.

Every statement the dg_bar callbacks emit satisfies `IRStmt.barShadowOnly`: it writes a
temporary from `n` on, guest bytes in `[total, 3 * total)`, or, through the recording-mode
helpers, the layers and the tape (`BarCallback.emit_grows`, `execStmt_barShadowOnly`). The one
statement recording mode does not copy is a CAS whose success the instrumentation has tested:
`dg_original_statement` replaces it by loads and stores that do what the CAS does
(`execStmts_dgOriginalStatement_cas`).

A shadow `GetI` or `PutI` shifts the base and the bias of the register array alike, by
`total` (the dot value of `nl_main.c` and `record_expr`, the `Lo` layer of `dg_bar_geti` and
`dg_bar_puti`) or by `2 * total` (the `Hi` layer). It reaches the shadow of the element the
original accesses when the number of elements divides `total`, as for the x87 register arrays
of x86 and amd64 (`shadow_getI_putI_shifted`), and another element otherwise
(`shadow_getI_putI_misaddress`).
-/

namespace Derivgrind

/-- The recording-mode helpers. -/
def IRCallee.isBar : IRCallee → Bool
  | .dgBarWriteToTapeCall | .dgBarStoreF80le _ | .dgBarLoadF80le _ | .shadowStore _ _
  | .shadowLoad _ _ => true
  | _ => false

/-- What a statement of the recording-mode instrumentation may write, for an input block
with `n` temporaries and a guest state of `total` bytes: a temporary from `n` on (the shadow
temporaries below `3 * n`, the helpers' after them), guest bytes in `[total, 3 * total)`, and,
through the recording-mode helpers, the layers and the tape. -/
def IRStmt.barShadowOnly (n total : Nat) (tyenv : List IRType) : IRStmt → Prop
  | .wrTmp t _ => n ≤ t
  | .put off data => total ≤ off ∧ off + sizeofIRType (data.type tyenv) ≤ 3 * total
  | .putI d _ _ _ =>
    total ≤ d.base ∧ 0 < d.nElems ∧ d.base + d.nElems * sizeofIRType d.elemTy ≤ 3 * total
  | .dirty d => d.cee.isBar ∧ ∀ t ∈ d.tmp, n ≤ t
  | _ => False

theorem IRCallee.isGuest_of_isBar : ∀ {cee : IRCallee}, cee.isBar → cee.isGuest = false
  | .guest _, h => by simp [IRCallee.isBar] at h
  | .nlStoreDiff _, h | .nlLoadDiff _, h => by simp [IRCallee.isBar] at h
  | .dgBarWriteToTapeCall, _ | .dgBarStoreF80le _, _ | .dgBarLoadF80le _, _
  | .shadowStore _ _, _ | .shadowLoad _ _, _ => rfl

theorem IRStmt.barShadowOnly.shadowOnly {n total : Nat} {tyenv : List IRType} :
    ∀ {st : IRStmt}, st.barShadowOnly n total tyenv → st.shadowOnly n total
  | .wrTmp _ _, h => h
  | .put _ _, h => h.1
  | .putI _ _ _ _, h => h.1
  | .dirty _, h => ⟨IRCallee.isGuest_of_isBar h.1, h.2⟩

/-! ## The callbacks -/

/-- An invocation of a dg_bar callback that emits statements, with its arguments. -/
inductive BarCallback where
  | wrtmp (temp : Nat) (expr : IRExpr × IRExpr)
  | puti (offset : Int) (expr : IRExpr × IRExpr) (descr : Option IRRegArray) (ix : IRExpr)
  | store (addr : IRExpr) (expr : IRExpr × IRExpr) (guard : IRExpr)
  | load (addr : IRExpr) (type : IRType)
  | storeF80le (addr : IRExpr) (expr : IRExpr × IRExpr)
  | loadF80le (addr : IRExpr) (temp : Nat)
  | writeToTape (index1Lo index1Hi index2Lo index2Hi diff1 diff2 : IRExpr)

/-- The block after the callback. -/
def BarCallback.emit (env : DiffEnv) (sb : IRSB) : BarCallback → IRSB
  | .wrtmp temp expr => dgBarWrtmp env temp expr sb
  | .puti offset expr descr ix => dgBarPuti env offset expr descr ix sb
  | .store addr expr guard => dgBarStore sb addr expr guard
  | .load addr type => (dgBarLoad sb addr type).2
  | .storeF80le addr expr => dgBarDirtyStoreF80le sb addr expr
  | .loadF80le addr temp => dgBarDirtyLoadF80le env sb addr temp
  | .writeToTape i1Lo i1Hi i2Lo i2Hi d1 d2 => (dgBarWriteToTape sb i1Lo i1Hi i2Lo i2Hi d1 d2).2

/-- The arguments the statement walker passes for an original register write inside the
guest state: the register array, or the written bytes of both halves, lie below `total`. -/
def BarCallback.Fits (env : DiffEnv) (tyenv : List IRType) : BarCallback → Prop
  | .puti _ _ (some d) _ => 0 < d.nElems ∧ d.base + d.nElems * sizeofIRType d.elemTy ≤ env.totalSizeB
  | .puti offset expr none _ =>
    0 ≤ offset ∧ offset + sizeofIRType (expr.1.type tyenv) ≤ env.totalSizeB ∧
      offset + sizeofIRType (expr.2.type tyenv) ≤ env.totalSizeB
  | _ => True

theorem Grows.newTemp {P : IRStmt → Prop} (sb : IRSB) (ty : IRType) :
    Grows P sb (newIRTemp sb ty).2 :=
  ⟨⟨[ty], rfl⟩, ⟨[], by simp, by simp⟩, rfl⟩

section Callbacks

variable {n total : Nat} {tyenv : List IRType}

theorem storeShadowMemory_grows (layer : Layer) (sb : IRSB) (addr expr guard : IRExpr) :
    Grows (IRStmt.barShadowOnly n total tyenv) sb (storeShadowMemory layer sb addr expr guard) :=
  Grows.addStmt _ _ (by simp [IRStmt.barShadowOnly, dirtyCall, IRCallee.isBar])

theorem loadShadowMemory_grows (layer : Layer) {sb : IRSB} (hn : n ≤ sb.tyenv.length)
    (addr : IRExpr) (ty : IRType) :
    Grows (IRStmt.barShadowOnly n total tyenv) sb (loadShadowMemory layer sb addr ty).2 :=
  (Grows.newTemp sb ty).trans
    (Grows.addStmt _ _ (by simp [IRStmt.barShadowOnly, dirtyCall, IRCallee.isBar]; omega))

/-- The helper temporary `dg_bar_writeToTape` allocates comes after every temporary of the
block it is given. -/
theorem dgBarWriteToTape_grows {m : Nat} {sb : IRSB} (hm : m ≤ sb.tyenv.length)
    (i1Lo i1Hi i2Lo i2Hi d1 d2 : IRExpr) :
    Grows (IRStmt.barShadowOnly m total tyenv) sb (dgBarWriteToTape sb i1Lo i1Hi i2Lo i2Hi d1 d2).2 :=
  (Grows.newTemp _ .i64).trans
    (Grows.addStmt _ _ (by simp [IRStmt.barShadowOnly, dirtyCall, IRCallee.isBar]; omega))

/-- Every statement a dg_bar callback emits writes only shadow or helper temporaries, the
shadow copies of the guest state, the layers or the tape. -/
theorem BarCallback.emit_grows (env : DiffEnv) (tyenv : List IRType) {sb : IRSB}
    (hn : env.tOffset ≤ sb.tyenv.length) :
    ∀ cb : BarCallback, cb.Fits env tyenv →
      Grows (IRStmt.barShadowOnly env.tOffset env.totalSizeB tyenv) sb (cb.emit env sb)
  | .wrtmp temp expr, _ =>
    (Grows.addStmt _ _ (by simp [IRStmt.barShadowOnly])).trans
      (Grows.addStmt _ _ (by simp [IRStmt.barShadowOnly]; omega))
  | .puti offset expr (some d) ix, ⟨hpos, hd⟩ =>
    (Grows.addStmt _ _ (by simp [IRStmt.barShadowOnly]; omega)).trans
      (Grows.addStmt _ _ (by simp [IRStmt.barShadowOnly]; omega))
  | .puti offset expr none ix, ⟨h0, h₁, h₂⟩ =>
    (Grows.addStmt _ _ (by simp [IRStmt.barShadowOnly]; omega)).trans
      (Grows.addStmt _ _ (by simp [IRStmt.barShadowOnly]; omega))
  | .store addr expr guard, _ =>
    (storeShadowMemory_grows _ _ _ _ _).trans (storeShadowMemory_grows _ _ _ _ _)
  | .load addr type, _ =>
    have h₁ : Grows (IRStmt.barShadowOnly env.tOffset env.totalSizeB tyenv) sb
        (loadShadowMemory .lo sb addr type).2 := loadShadowMemory_grows .lo hn addr type
    h₁.trans (loadShadowMemory_grows .hi (le_trans hn h₁.length_le) addr type)
  | .storeF80le addr expr, _ =>
    (Grows.addStmt _ _ (by simp [IRStmt.barShadowOnly, dirtyCall, IRCallee.isBar])).trans
      (Grows.addStmt _ _ (by simp [IRStmt.barShadowOnly, dirtyCall, IRCallee.isBar]))
  | .loadF80le addr temp, _ =>
    (Grows.addStmt _ _ (by simp [IRStmt.barShadowOnly, dirtyCall, IRCallee.isBar])).trans
      (Grows.addStmt _ _ (by simp [IRStmt.barShadowOnly, dirtyCall, IRCallee.isBar]; omega))
  | .writeToTape i1Lo i1Hi i2Lo i2Hi d1 d2, _ => dgBarWriteToTape_grows hn i1Lo i1Hi i2Lo i2Hi d1 d2

end Callbacks

/-! ## Shadow register arrays -/

/-- `s'` differs from `s` in temporaries from `n` on, guest bytes in `[total, 3 * total)`
and the tool state only. -/
structure BarFrame {V T : Type} (n total : Nat) (s s' : State V T) : Prop where
  tmps : ∀ t < n, s'.tmps t = s.tmps t
  guest : ∀ x, x < total ∨ 3 * total ≤ x → s'.guest x = s.guest x
  mem : s'.mem = s.mem
  exit : s'.exit = s.exit

/-- A statement of the recording-mode instrumentation, run with any tool, changes nothing
outside its footprint. -/
theorem execStmt_barShadowOnly (ext : Interp Nat) {T : Type} (tc : ToolCall Nat T)
    (tyenv : List IRType) (s : State Nat T) {n total : Nat} :
    ∀ st : IRStmt, st.barShadowOnly n total tyenv →
      BarFrame n total s (execStmt (bitsInterp ext) tc tyenv s st)
  | .wrTmp t _, (ht : n ≤ t) =>
    ⟨fun _ hx => Function.update_noteq (by omega) _ _, fun _ _ => rfl, rfl, rfl⟩
  | .put off data, ⟨hlo, hhi⟩ =>
    ⟨fun _ _ => rfl, fun x hx => by
      rcases hx with hx | hx
      · exact writeBytes_apply_of_lt _ _ _ (by omega)
      · exact writeBytes_apply_of_le _ _ _ (by simp; omega), rfl, rfl⟩
  | .putI d ix bias data, ⟨hlo, hpos, hhi⟩ =>
    have hle := d.elemOffset_add_le hpos ((bitsInterp ext).toInt (eval (bitsInterp ext) s ix)) bias
    ⟨fun _ _ => rfl, fun x hx => by
      rcases hx with hx | hx
      · exact writeBytes_apply_of_lt _ _ _ (by simp only [IRRegArray.elemOffset] at hle ⊢; omega)
      · exact writeBytes_apply_of_le _ _ _ (by simp; omega), rfl, rfl⟩
  | .dirty d, ⟨hbar, htmp⟩ => by
    have htmps : ∀ v : Nat, ∀ t < n, setTmp s.tmps d.tmp v t = s.tmps t :=
      fun v t ht => setTmp_apply_of_ne _ v fun u hu => by have := htmp u hu; omega
    simp only [execStmt]
    split_ifs
    · rw [callDirty_of_tool _ tc s d (IRCallee.isGuest_of_isBar hbar)]
      exact ⟨htmps _, fun _ _ => rfl, rfl, rfl⟩
    · exact ⟨htmps _, fun _ _ => rfl, rfl, rfl⟩

/-! ## The compare-and-swap -/

section CAS

variable {V T : Type}

/-- The test `execCAS` makes: the old element, and the old high element of a double CAS,
equal the expected ones. -/
def casSucceeds (I : Interp V) (tyenv : List IRType) (s : State V T) (c : IRCAS) : Prop :=
  let ty := c.expdLo.type tyenv
  let n := sizeofIRType ty
  let aLo := I.toAddr (eval I s c.addr)
  readBytes s.mem aLo n = I.encode ty (eval I s c.expdLo) ∧
    ∀ eHi ∈ c.expdHi, readBytes s.mem (aLo + BitVec.ofNat 64 n) n = I.encode ty (eval I s eHi)

/-- A constant, or a temporary not in `ts`. -/
def IRExpr.atomAvoiding (ts : List Nat) : IRExpr → Prop
  | .const _ => True
  | .rdTmp t => t ∉ ts
  | _ => False

/-- A CAS as flat, well-typed VEX has it, with its success tested into `cs`: the three high
parts are all present or all absent; the address and new data are constants or temporaries
other than the old-value temporaries, which `cs` is not either; the new data has the type
of the expected data. -/
structure IRCAS.Replaceable (tyenv : List IRType) (cs : Nat) (c : IRCAS) : Prop where
  oldHi : c.oldHi.isSome = c.expdHi.isSome
  dataHi : c.dataHi.isSome = c.expdHi.isSome
  cs_ne : cs ∉ c.oldLo :: c.oldHi.toList
  addr : c.addr.atomAvoiding (c.oldLo :: c.oldHi.toList)
  dataLo_atom : c.dataLo.atomAvoiding (c.oldLo :: c.oldHi.toList)
  dataHi_atom : ∀ d ∈ c.dataHi, d.atomAvoiding (c.oldLo :: c.oldHi.toList)
  dataLo_type : c.dataLo.type tyenv = c.expdLo.type tyenv
  dataHi_type : ∀ d ∈ c.dataHi, d.type tyenv = c.expdLo.type tyenv

/-- The statements `sh`, run from any running state, leave in `cs` whether the CAS `c`
succeeds in the state they end in. -/
def TestsCAS (I : Interp V) (tc : ToolCall V T) (tyenv : List IRType) (sh : List IRStmt)
    (c : IRCAS) (cs : Nat) : Prop :=
  ∀ s : State V T, s.exit = none →
    (I.isTrue ((execStmts I tc tyenv s sh).tmps cs) = true ↔
      casSucceeds I tyenv (execStmts I tc tyenv s sh) c)

/-- Whether a CAS can be replaced depends on the types of the input block's temporaries only. -/
theorem IRCAS.Replaceable.congr_tyenv {n total : Nat} {tyenv₁ tyenv₂ : List IRType}
    (hty : ∀ t < n, tyenv₁.getD t .i64 = tyenv₂.getD t .i64) {c : IRCAS} {cs : Nat}
    (hc : (IRStmt.cas c).inScope n total) (h : c.Replaceable tyenv₁ cs) :
    c.Replaceable tyenv₂ cs := by
  obtain ⟨-, hexp, hdat, -, hdHi⟩ := hc
  refine { h with dataLo_type := ?_, dataHi_type := fun d hd => ?_ }
  · rw [← type_agree hty _ hdat, ← type_agree hty _ hexp, h.dataLo_type]
  · rw [← type_agree hty _ (hdHi d hd), ← type_agree hty _ hexp, h.dataHi_type d hd]

/-- An atom reads the same in a state whose temporaries differ only at `ts` and whose memory
may differ. -/
theorem eval_atomAvoiding (I : Interp V) {ts : List Nat} {s : State V T} {tmps : Nat → V}
    (h : ∀ t, t ∉ ts → tmps t = s.tmps t) (guest : Nat → UInt8) (mem : Addr → UInt8) (tool : T)
    (exit : Option IRConst) :
    ∀ e : IRExpr, e.atomAvoiding ts → eval I ⟨tmps, guest, mem, tool, exit⟩ e = eval I s e
  | .const _, _ => rfl
  | .rdTmp t, ht => h t ht
  | .get _ _, h | .getI _ _ _, h | .load _ _, h | .unop _ _, h | .binop _ _ _, h
  | .triop _ _ _ _, h | .qop _ _ _ _ _, h | .ite _ _ _, h | .ccall _ _ _ _, h => (h : False).elim

/-- The statements `dg_original_statement` puts in place of a CAS behave as the CAS does, once
`cs` holds its success: each old element is loaded into its temporary, and each element is
stored to, with the new data when the CAS succeeds and the data just loaded when it fails. -/
theorem execStmts_dgOriginalStatement_cas (ext : Interp Nat) (tc : ToolCall Nat T)
    (tyenv : List IRType) {sb : IRSB} {c : IRCAS} {cs : Nat} (hrep : c.Replaceable tyenv cs)
    (htype : c.expdLo.type sb.tyenv = c.expdLo.type tyenv) {s : State Nat T} (hs : s.exit = none)
    (hok : (bitsInterp ext).isTrue (s.tmps cs) = true ↔ casSucceeds (bitsInterp ext) tyenv s c) :
    execStmts (bitsInterp ext) tc tyenv s
      ((dgOriginalStatement (some cs) sb (.cas c)).stmts.drop sb.stmts.length) =
      execCAS (bitsInterp ext) tyenv s c := by
  obtain ⟨oldHi, oldLo, addr, expdHi, expdLo, dataHi, dataLo⟩ := c
  obtain ⟨hoH, hdH, hcs, haddr, hdLo, hdHi, htLo, htHi⟩ := hrep
  dsimp only at hoH hdH hcs haddr hdLo hdHi htLo htHi htype hok ⊢
  have hsz : sizeofIRType (expdLo.type tyenv) < 2 ^ 64 := by cases expdLo.type tyenv <;> decide
  cases expdHi with
  | none =>
    cases oldHi <;> simp at hoH
    cases dataHi <;> simp at hdH
    simp only [Option.toList, List.mem_singleton, List.mem_cons, List.not_mem_nil, or_false] at hcs
    have hkeep : ∀ v t, t ∉ oldLo :: (none : Option Nat).toList →
        Function.update s.tmps oldLo v t = s.tmps t :=
      fun v t ht => Function.update_noteq (by simpa using ht) _ _
    simp only [dgOriginalStatement, addStmtToIRSB, addressesOfCAS, Option.isSome_none,
      List.append_assoc, List.drop_left, List.singleton_append, execStmts, execStmt, hs,
      htype, IRExpr.type, htLo, eval, eval_atomAvoiding _ (hkeep _) _ _ _ _ addr haddr,
      eval_atomAvoiding _ (hkeep _) _ _ _ _ dataLo hdLo, Function.update_noteq hcs,
      bitsInterp_decode, bitsInterp_encode, bitsInterp_toAddr]
    simp only [execCAS, casSucceeds, bitsInterp_encode, bitsInterp_toAddr, bitsInterp_decode,
      Option.not_mem_none, IsEmpty.forall_iff, implies_true, and_true] at hok ⊢
    by_cases hc : (bitsInterp ext).isTrue (s.tmps cs) = true
    · simp only [hc, hok.mp hc, if_true, hs]
    · simp only [hc, mt hok.mpr hc, hs, Bool.false_eq_true, if_false,
        writeBytes_leBytes_readBytes _ _ hsz]
  | some eHi =>
    cases oldHi with
    | none => simp at hoH
    | some h =>
    cases dataHi with
    | none => simp at hdH
    | some dHi =>
    simp only [Option.toList, List.mem_singleton, List.mem_cons, List.not_mem_nil, or_false,
      not_or] at hcs
    simp only [Option.mem_def, Option.some.injEq, forall_eq'] at hdHi htHi
    have hkeep : ∀ v t, t ∉ oldLo :: (some h).toList →
        Function.update s.tmps oldLo v t = s.tmps t :=
      fun v t ht => Function.update_noteq (by simp_all) _ _
    have hkeep2 : ∀ v w t, t ∉ oldLo :: (some h).toList →
        Function.update (Function.update s.tmps oldLo v) h w t = s.tmps t :=
      fun v w t ht => by simp at ht; simp [Function.update_noteq, ht]
    simp only [dgOriginalStatement, addStmtToIRSB, addressesOfCAS, Option.isSome_some,
      List.append_assoc, List.drop_left, List.singleton_append, execStmts, execStmt, hs,
      htype, IRExpr.type, htLo, hdHi, eval, eval_atomAvoiding _ (hkeep _) _ _ _ _ addr haddr,
      eval_atomAvoiding _ (hkeep2 _ _) _ _ _ _ addr haddr,
      eval_atomAvoiding _ (hkeep2 _ _) _ _ _ _ dataLo hdLo,
      eval_atomAvoiding _ (hkeep2 _ _) _ _ _ _ dHi hdHi,
      Function.update_noteq hcs.1, Function.update_noteq hcs.2, bitsInterp_decode,
      bitsInterp_encode, bitsInterp_binop, bitsInterp_toAddr_add64, bitsInterp_const, bitsConst]
    simp only [execCAS, casSucceeds, bitsInterp_encode, bitsInterp_toAddr, bitsInterp_decode,
      Option.mem_def, Option.some.injEq, forall_eq', htHi] at hok ⊢
    by_cases hc : (bitsInterp ext).isTrue (s.tmps cs) = true
    · simp only [hc, hok.mp hc, if_true, hs, and_self]
    · simp only [hc, mt hok.mpr hc, hs, Bool.false_eq_true, if_false,
        writeBytes_leBytes_readBytes _ _ hsz]

end CAS

end Derivgrind
