import Derivgrind.IR.Exact
import Derivgrind.IR.Frame
import Derivgrind.IR.WellFormed
import Derivgrind.Nulgrind.Instrument

/-!
# Derivgrind.Nulgrind.Frame

`nl_instrument` does not change what the client program computes. Every statement it or
`differentiate_expr` adds is shadow-only: it writes a shadow temporary `t + t_offset`, a
fresh helper temporary, a guest offset from `total_sizeB` on, or the shadow map through
`nl_Store_diffN`; and every original statement is copied unchanged and in order. The
generic simulation of `Derivgrind.IR.Frame` then gives `nlInstrument_agree`: the
instrumented block ends in the same original temporaries, guest bytes, client memory and
exit as the original block.

The output block is threaded through the instrumentation; `Grows` says how it may change
in one step: new types at the end of the type environment, new shadow-only statements at
the end of the statement list.
-/

namespace Derivgrind

/-- The output block only grows: by types at the end of its type environment and by
statements satisfying `P` at the end of its statement list. -/
structure Grows (P : IRStmt → Prop) (sb sb' : IRSB) : Prop where
  tyenv : ∃ extra, sb'.tyenv = sb.tyenv ++ extra
  stmts : ∃ sh, sb'.stmts = sb.stmts ++ sh ∧ ∀ st ∈ sh, P st
  next : sb'.next = sb.next

namespace Grows

variable {P Q : IRStmt → Prop} {sb sb₁ sb₂ : IRSB}

theorem refl (sb : IRSB) : Grows P sb sb := ⟨⟨[], by simp⟩, ⟨[], by simp, by simp⟩, rfl⟩

theorem trans (h₁ : Grows P sb sb₁) (h₂ : Grows P sb₁ sb₂) : Grows P sb sb₂ := by
  obtain ⟨⟨e₁, he₁⟩, ⟨s₁, hs₁, hsh₁⟩, hn₁⟩ := h₁
  obtain ⟨⟨e₂, he₂⟩, ⟨s₂, hs₂, hsh₂⟩, hn₂⟩ := h₂
  refine ⟨⟨e₁ ++ e₂, by simp [he₁, he₂]⟩, ⟨s₁ ++ s₂, by simp [hs₁, hs₂], ?_⟩, hn₂.trans hn₁⟩
  intro st hst
  rcases List.mem_append.mp hst with h | h
  exacts [hsh₁ st h, hsh₂ st h]

theorem imp (h : Grows P sb sb₁) (hPQ : ∀ st, P st → Q st) : Grows Q sb sb₁ :=
  let ⟨ht, ⟨sh, hs, hsh⟩, hn⟩ := h
  ⟨ht, ⟨sh, hs, fun st hst => hPQ st (hsh st hst)⟩, hn⟩

theorem length_le (h : Grows P sb sb₁) : sb.tyenv.length ≤ sb₁.tyenv.length := by
  obtain ⟨⟨e, he⟩, -⟩ := h
  simp [he]

theorem addStmt (sb : IRSB) (st : IRStmt) (h : P st) : Grows P sb (addStmtToIRSB sb st) :=
  ⟨⟨[], by simp⟩, ⟨[st], rfl, by simpa using h⟩, rfl⟩

theorem drop_append (h₁ : Grows P sb sb₁) (h₂ : Grows Q sb₁ sb₂) :
    sb₂.stmts.drop sb.stmts.length =
      sb₁.stmts.drop sb.stmts.length ++ sb₂.stmts.drop sb₁.stmts.length := by
  obtain ⟨-, ⟨sh₁, h₁, -⟩, -⟩ := h₁
  obtain ⟨-, ⟨sh₂, h₂, -⟩, -⟩ := h₂
  simp [h₂, h₁]

end Grows

/-- A helper statement of `differentiate_expr`: it assigns a temporary from `m` on,
directly or as the result of `nl_Load_diffN`. -/
def IRStmt.freshOnly (m : Nat) : IRStmt → Prop
  | .wrTmp t _ => m ≤ t
  | .dirty d => (∃ n, d.cee = .nlLoadDiff n) ∧ ∀ t ∈ d.tmp, m ≤ t
  | _ => False

theorem IRStmt.freshOnly.mono {m m' : Nat} (h : m' ≤ m) :
    ∀ {st : IRStmt}, st.freshOnly m → st.freshOnly m'
  | .wrTmp _ _, ht => le_trans h ht
  | .dirty _, ⟨hc, ht⟩ => ⟨hc, fun t h' => le_trans h (ht t h')⟩

theorem IRStmt.freshOnly.shadowOnly {n m total : Nat} (h : n ≤ m) :
    ∀ {st : IRStmt}, st.freshOnly m → st.shadowOnly n total
  | .wrTmp _ _, ht => le_trans h ht
  | .dirty _, ⟨⟨_, hc⟩, ht⟩ => ⟨by rw [hc]; rfl, fun t h' => le_trans h (ht t h')⟩

variable (env : DiffEnv)

/-- The helper statements of a shadow load assign the two fresh temporaries. -/
theorem grows_shadowLoad (sb : IRSB) (ty : IRType) (addr : IRExpr) :
    Grows (IRStmt.freshOnly sb.tyenv.length) sb
      { tyenv := sb.tyenv ++ [.i64, ty],
        stmts := sb.stmts ++ [.dirty (loadDiffDirty ty addr sb.tyenv.length),
          .wrTmp (sb.tyenv.length + 1) (convertFromInteger (.rdTmp sb.tyenv.length) ty)],
        next := sb.next } :=
  ⟨⟨_, rfl⟩, ⟨_, rfl, by simp [IRStmt.freshOnly, loadDiffDirty]⟩, rfl⟩

/-- `differentiate_expr` only adds helper statements that assign fresh temporaries. -/
theorem differentiateExpr_grows (sb : IRSB) :
    ∀ e : IRExpr, Grows (IRStmt.freshOnly sb.tyenv.length) sb (differentiateExpr env e sb).2 := by
  intro e
  induction e generalizing sb with
  | triop op a₁ a₂ a₃ _ ih₂ ih₃ =>
    have h₂ := ih₂ sb
    rw [differentiateExpr_triop]
    exact h₂.trans ((ih₃ _).imp fun _ => IRStmt.freshOnly.mono h₂.length_le)
  | binop op a₁ a₂ _ ih₂ => rw [differentiateExpr_binop]; exact ih₂ sb
  | unop op a ih => rw [differentiateExpr_unop]; exact ih sb
  | ite c a b _ iha ihb =>
    have ha := iha sb
    rw [differentiateExpr_ite]
    exact ha.trans ((ihb _).imp fun _ => IRStmt.freshOnly.mono ha.length_le)
  | load ty addr _ =>
    by_cases h : canConvertToI64 ty = true
    · rw [differentiateExpr_load env sb h]
      exact grows_shadowLoad sb ty addr
    · simp only [differentiateExpr, h, if_false]
      exact Grows.refl sb
  | const _ | rdTmp _ | get _ _ | getI _ _ _ _ | qop _ _ _ _ _ _ _ _ _ | ccall _ _ _ _ _ =>
    exact Grows.refl sb

/-- The helpers of `differentiate_expr`, from an output block holding the shadow
temporaries, are shadow-only. -/
theorem differentiateExpr_grows_shadowOnly {sb : IRSB} (hn : env.tOffset ≤ sb.tyenv.length)
    (e : IRExpr) :
    Grows (IRStmt.shadowOnly env.tOffset env.totalSizeB) sb (differentiateExpr env e sb).2 :=
  (differentiateExpr_grows env sb e).imp fun _ => IRStmt.freshOnly.shadowOnly hn

/-- The `Ist_Store`/`Ist_StoreG` instrumentation adds shadow-only statements. -/
theorem instrumentStore_grows {sb sb' : IRSB} (hn : env.tOffset ≤ sb.tyenv.length)
    (tyenv : List IRType) (addr data guard : IRExpr)
    (h : instrumentStore env tyenv sb addr data guard = some sb') :
    Grows (IRStmt.shadowOnly env.tOffset env.totalSizeB) sb sb' := by
  simp only [instrumentStore] at h
  split_ifs at h
  · obtain ⟨r, hr, rfl⟩ := Option.map_eq_some'.mp h
    obtain rfl := differentiateOrWarn_eq_some env hr
    have hd := differentiateExpr_grows_shadowOnly env hn data
    split
    · exact hd.trans (Grows.addStmt _ (.dirty _) ⟨rfl, fun _ h => by cases h⟩)
    · exact hd
  · obtain rfl := Option.some.inj h
    exact Grows.refl sb

/-- The `Ist_LoadG` instrumentation adds shadow-only statements. -/
theorem instrumentLoadG_grows {sb sb' : IRSB} (hn : env.tOffset ≤ sb.tyenv.length) (ty : IRType)
    (dst : Nat) (addr alt guard : IRExpr) (h : instrumentLoadG env ty dst addr alt guard sb = some sb') :
    Grows (IRStmt.shadowOnly env.tOffset env.totalSizeB) sb sb' := by
  obtain ⟨r, hr, rfl⟩ := Option.map_eq_some'.mp h
  obtain rfl := differentiateOrWarn_eq_some env hr
  have hd := differentiateExpr_grows_shadowOnly env hn alt
  rw [instrumentLoadGWith_eq]
  rcases (differentiateExpr env alt sb).1 with _ | dAlt
  · exact hd
  · have hl : Grows (IRStmt.shadowOnly env.tOffset env.totalSizeB) _ _ :=
      (grows_shadowLoad _ ty addr).imp fun _ => IRStmt.freshOnly.shadowOnly (hn.trans hd.length_le)
    exact (hd.trans hl).trans (Grows.addStmt _ (.wrTmp (dst + env.tOffset) _)
      (show env.tOffset ≤ dst + env.tOffset by omega))

/-- The instrumentation `nl_instrument` emits in front of a statement is shadow-only. -/
theorem instrumentStmt_grows {sb sb' : IRSB} (hn : env.tOffset ≤ sb.tyenv.length)
    (tyenv : List IRType) :
    ∀ st : IRStmt, instrumentStmt env tyenv sb st = some sb' →
      Grows (IRStmt.shadowOnly env.tOffset env.totalSizeB) sb sb'
  | .wrTmp t data, h => by
    obtain ⟨r, hr, rfl⟩ := Option.map_eq_some'.mp h
    obtain rfl := differentiateOrWarn_eq_some env hr
    have hd := differentiateExpr_grows_shadowOnly env hn data
    split
    · exact hd.trans (Grows.addStmt _ (.wrTmp _ _) (show env.tOffset ≤ t + env.tOffset by omega))
    · exact hd
  | .put off data, h => by
    obtain ⟨r, hr, rfl⟩ := Option.map_eq_some'.mp h
    obtain rfl := differentiateOrWarn_eq_some env hr
    have hd := differentiateExpr_grows_shadowOnly env hn data
    split
    · exact hd.trans (Grows.addStmt _ (.put _ _) (show env.totalSizeB ≤ off + env.totalSizeB by omega))
    · exact hd
  | .putI descr _ _ data, h => by
    obtain ⟨r, hr, rfl⟩ := Option.map_eq_some'.mp h
    obtain rfl := differentiateOrWarn_eq_some env hr
    have hd := differentiateExpr_grows_shadowOnly env hn data
    split
    · exact hd.trans
        (Grows.addStmt _ (.putI _ _ _ _) (show env.totalSizeB ≤ descr.base + env.totalSizeB by omega))
    · exact hd
  | .store addr data, h | .storeG addr data _, h => instrumentStore_grows env hn tyenv addr data _ h
  | .loadG cvt dst addr alt guard, h => by
    simp only [instrumentStmt] at h
    split_ifs at h
    · exact instrumentLoadG_grows env hn _ dst addr alt guard h
    · obtain rfl := Option.some.inj h
      exact Grows.refl sb
  | .cas c, h => by
    simp only [instrumentStmt, Option.some.injEq] at h
    subst h
    have hlo : Grows (IRStmt.shadowOnly env.tOffset env.totalSizeB) sb
        (addStmtToIRSB sb (.wrTmp (c.oldLo + env.tOffset) (.const (.f64 0)))) :=
      Grows.addStmt sb _ (show env.tOffset ≤ c.oldLo + env.tOffset by omega)
    split
    · exact hlo.trans (Grows.addStmt _ (.wrTmp _ _) (show env.tOffset ≤ _ + env.tOffset by omega))
    · exact hlo
  | .noOp, h | .imark, h | .abiHint, h | .mbe, h | .llsc _ _ _, h | .dirty _, h | .exit _ _, h => by
    simp only [instrumentStmt, Option.some.injEq] at h
    exact h ▸ Grows.refl sb

/-- The fold of `nl_instrument` over the statements after the first `IMark`: the output
block grows by each statement's instrumentation followed by the statement itself. -/
theorem foldlM_instrumentStmt (tyenv : List IRType) :
    ∀ (sts : List IRStmt) {sb sb' : IRSB}, env.tOffset ≤ sb.tyenv.length →
      sts.foldlM (fun sb st => (instrumentStmt env tyenv sb st).map fun sb => addStmtToIRSB sb st)
        sb = some sb' →
      (∃ extra, sb'.tyenv = sb.tyenv ++ extra) ∧ sb'.next = sb.next ∧
        ∃ out, sb'.stmts = sb.stmts ++ out ∧ Interleaved env.tOffset env.totalSizeB sts out
  | [], sb, sb', _, h => by
    cases h
    exact ⟨⟨[], by simp⟩, rfl, [], by simp, .nil⟩
  | st :: sts, sb, sb', hn, h => by
    rw [List.foldlM_cons] at h
    cases hc : instrumentStmt env tyenv sb st with
    | none => simp [hc] at h
    | some sb₁ =>
      simp only [hc, Option.map_some'] at h
      obtain ⟨⟨e₁, he₁⟩, ⟨sh, hsh, hsho⟩, hn₁⟩ := instrumentStmt_grows env hn tyenv st hc
      obtain ⟨⟨e₂, he₂⟩, hn₂, out, hout, hio⟩ :=
        foldlM_instrumentStmt tyenv sts (by simp [he₁]; omega) h
      exact ⟨⟨e₁ ++ e₂, by simp [he₂, he₁]⟩, hn₂.trans hn₁, sh ++ st :: out,
        by simp [hout, hsh], Interleaved.shadows hsho (.orig hio)⟩

theorem Interleaved.refl (n total : Nat) : ∀ sts : List IRStmt, Interleaved n total sts sts
  | [] => .nil
  | _ :: sts => .orig (Interleaved.refl n total sts)

/-- The shape of `nl_instrument`'s result: the original statements, in order and unchanged,
interleaved with shadow-only ones; the types of the original temporaries kept, and the
same `next`. -/
theorem nlInstrument_shape {totalSizeB : Nat} {sbIn sbOut : IRSB}
    (h : nlInstrument totalSizeB sbIn = some sbOut) :
    Interleaved sbIn.tyenv.length totalSizeB sbIn.stmts sbOut.stmts ∧
      (∀ t < sbIn.tyenv.length, sbIn.tyenv.getD t .i64 = sbOut.tyenv.getD t .i64) ∧
      sbOut.next = sbIn.next := by
  obtain ⟨⟨extra, hty⟩, hnext, out, hout, hio⟩ :=
    foldlM_instrumentStmt ⟨sbIn.tyenv.length, totalSizeB⟩ sbIn.tyenv _ (by simp) h
  refine ⟨?_, fun t ht => ?_, hnext⟩
  · have := (Interleaved.refl _ _ (sbIn.stmts.takeWhile fun st => !st.isIMark)).append hio
    rw [List.takeWhile_append_dropWhile] at this
    rwa [hout]
  · simp only [hty, List.append_assoc, List.getD_eq_getElem?_getD, List.getElem?_append_left ht]

variable {V : Type}

/-- `nl_instrument` preserves the client's computation: from the same state, the
instrumented block ends with the same original temporaries, guest bytes below
`total_sizeB`, client memory and exit as the original block, and jumps to the same place.
The input block reads only its own temporaries and guest bytes, and calls guest helpers
that touch the guest state proper only. -/
theorem nlInstrument_agree (I : Interp V) {totalSizeB : Nat} (hI : I.GuestLocal totalSizeB)
    {sbIn sbOut : IRSB} (h : nlInstrument totalSizeB sbIn = some sbOut)
    (hsc : ∀ st ∈ sbIn.stmts, st.inScope sbIn.tyenv.length totalSizeB)
    (hnext : sbIn.next.inScope sbIn.tyenv.length totalSizeB) (s : State V ShadowMap) :
    Interleaved sbIn.tyenv.length totalSizeB sbIn.stmts sbOut.stmts ∧
      Agree sbIn.tyenv.length totalSizeB (execStmts I (nlToolCall I) sbIn.tyenv s sbIn.stmts)
        (execStmts I (nlToolCall I) sbOut.tyenv s sbOut.stmts) ∧
      jumpTarget I sbIn (execStmts I (nlToolCall I) sbIn.tyenv s sbIn.stmts) =
        jumpTarget I sbOut (execStmts I (nlToolCall I) sbOut.tyenv s sbOut.stmts) := by
  obtain ⟨hio, hty, hn⟩ := nlInstrument_shape h
  have hA := execStmts_interleaved I hI hty (nlToolCall I) (nlToolCall I) hio hsc
    (Agree.refl _ _ s)
  exact ⟨hio, hA, jumpTarget_agree I hn.symm hnext hA⟩

/-- The block `IMark; t1 = Add64(t0, 0x8); PUT(16) = t1`, on a 32-byte guest state. -/
theorem nlInstrument_agree_addPut :
    Interleaved 2 32
        [.imark, .wrTmp 1 (.binop (.other "Add64" .i64) (.rdTmp 0) (.const (.u64 8))),
          .put 16 (.rdTmp 1)]
        [.imark, .wrTmp 1 (.binop (.other "Add64" .i64) (.rdTmp 0) (.const (.u64 8))),
          .put 48 (.rdTmp 3), .put 16 (.rdTmp 1)] ∧
      Agree 2 32
        (execStmts (exactInterp ExactArith.rat Interp.inert)
          (nlToolCall (exactInterp ExactArith.rat Interp.inert)) [.i64, .i64]
          ⟨fun _ => .word 0, fun _ => 0, fun _ => 0, shadowInitializeMap, none⟩
          [.imark, .wrTmp 1 (.binop (.other "Add64" .i64) (.rdTmp 0) (.const (.u64 8))),
            .put 16 (.rdTmp 1)])
        (execStmts (exactInterp ExactArith.rat Interp.inert)
          (nlToolCall (exactInterp ExactArith.rat Interp.inert)) [.i64, .i64, .i64, .i64]
          ⟨fun _ => .word 0, fun _ => 0, fun _ => 0, shadowInitializeMap, none⟩
          [.imark, .wrTmp 1 (.binop (.other "Add64" .i64) (.rdTmp 0) (.const (.u64 8))),
            .put 48 (.rdTmp 3), .put 16 (.rdTmp 1)]) ∧
      jumpTarget (exactInterp ExactArith.rat Interp.inert)
          ⟨[.i64, .i64], [.imark, .wrTmp 1 (.binop (.other "Add64" .i64) (.rdTmp 0)
            (.const (.u64 8))), .put 16 (.rdTmp 1)], .rdTmp 1⟩
          (execStmts (exactInterp ExactArith.rat Interp.inert)
            (nlToolCall (exactInterp ExactArith.rat Interp.inert)) [.i64, .i64]
            ⟨fun _ => .word 0, fun _ => 0, fun _ => 0, shadowInitializeMap, none⟩
            [.imark, .wrTmp 1 (.binop (.other "Add64" .i64) (.rdTmp 0) (.const (.u64 8))),
              .put 16 (.rdTmp 1)]) =
        jumpTarget (exactInterp ExactArith.rat Interp.inert)
          ⟨[.i64, .i64, .i64, .i64], [.imark, .wrTmp 1 (.binop (.other "Add64" .i64) (.rdTmp 0)
            (.const (.u64 8))), .put 48 (.rdTmp 3), .put 16 (.rdTmp 1)], .rdTmp 1⟩
          (execStmts (exactInterp ExactArith.rat Interp.inert)
            (nlToolCall (exactInterp ExactArith.rat Interp.inert)) [.i64, .i64, .i64, .i64]
            ⟨fun _ => .word 0, fun _ => 0, fun _ => 0, shadowInitializeMap, none⟩
            [.imark, .wrTmp 1 (.binop (.other "Add64" .i64) (.rdTmp 0) (.const (.u64 8))),
              .put 48 (.rdTmp 3), .put 16 (.rdTmp 1)]) :=
  nlInstrument_agree (exactInterp ExactArith.rat Interp.inert)
    (fun _ _ _ _ _ h => ⟨rfl, rfl, h⟩)
    (show nlInstrument 32 ⟨[.i64, .i64], [.imark, .wrTmp 1 (.binop (.other "Add64" .i64)
      (.rdTmp 0) (.const (.u64 8))), .put 16 (.rdTmp 1)], .rdTmp 1⟩ =
      some ⟨[.i64, .i64, .i64, .i64], [.imark, .wrTmp 1 (.binop (.other "Add64" .i64) (.rdTmp 0)
        (.const (.u64 8))), .put 48 (.rdTmp 3), .put 16 (.rdTmp 1)], .rdTmp 1⟩ from rfl)
    (by decide) (by decide) _

/-! ## What `nl_instrument` does not preserve -/

/-- An operator `differentiate_expr` does not support leaves the shadow of its temporary
unassigned, and the instrumentation of a later `Put` of that temporary reads it: the block
`t0 = GET:I64(0); t1 = Add64(t0, 0x8); PUT(16) = t1` assigns each temporary once and before
use, but the instrumented block reads `t3` (the shadow of `t1`) before any statement assigns
it. -/
theorem nlInstrument_reads_unassigned_shadow :
    IRSB.tmpsAssignedBeforeUse ⟨[.i64, .i64], [.imark, .wrTmp 0 (.get 0 .i64),
      .wrTmp 1 (.binop (.other "Add64" .i64) (.rdTmp 0) (.const (.u64 8))),
      .put 16 (.rdTmp 1)], .rdTmp 1⟩ = true ∧
    nlInstrument 32 ⟨[.i64, .i64], [.imark, .wrTmp 0 (.get 0 .i64),
      .wrTmp 1 (.binop (.other "Add64" .i64) (.rdTmp 0) (.const (.u64 8))),
      .put 16 (.rdTmp 1)], .rdTmp 1⟩ =
      some ⟨[.i64, .i64, .i64, .i64], [.imark, .wrTmp 2 (.get 32 .i64), .wrTmp 0 (.get 0 .i64),
        .wrTmp 1 (.binop (.other "Add64" .i64) (.rdTmp 0) (.const (.u64 8))),
        .put 48 (.rdTmp 3), .put 16 (.rdTmp 1)], .rdTmp 1⟩ ∧
    IRSB.tmpsAssignedBeforeUse ⟨[.i64, .i64, .i64, .i64], [.imark, .wrTmp 2 (.get 32 .i64),
      .wrTmp 0 (.get 0 .i64), .wrTmp 1 (.binop (.other "Add64" .i64) (.rdTmp 0) (.const (.u64 8))),
      .put 48 (.rdTmp 3), .put 16 (.rdTmp 1)], .rdTmp 1⟩ = false :=
  ⟨rfl, rfl, rfl⟩

end Derivgrind
