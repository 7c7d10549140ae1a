import Derivgrind.IR.Exact
import Derivgrind.Nulgrind.Frame

/-!
# Derivgrind.Nulgrind.Tangent

What `differentiate_expr` computes: for every expression of its fragment, the expression it
returns evaluates, under exact arithmetic and once the helper statements it emitted have
run, to the tangent of the original expression over dual numbers
(`differentiateExpr_tangent`). A location's tangent is its shadow: temporary `t + t_offset`,
guest offset `o + total_sizeB`, and for memory the shadow map's bytes read back through
`nl_Load_diffN`.

The proof is an induction over the expression that follows `differentiate_expr`'s own
threading of the output block (`differentiateExpr_triop` and its siblings): the helpers of
a node are those of its arguments in order, and they only assign fresh temporaries
(`differentiateExpr_grows`), so what one argument's tangent expression reads is left alone
by the helpers of the next.
-/

namespace Derivgrind

/-- What `differentiate_expr` assumes of a node of the original block: a temporary it reads
is an original one, below `t_offset`, and a register array it indexes has a number of
elements dividing `total_sizeB`, as on x86 and amd64. A load is not of an `F32`: for those
the code emits `ReinterpI32asF32` of an `I64`, which VEX's type check rejects
(`convertFromInteger_unopsTyped`), so the tool never runs the block. -/
def IRExpr.originalNode (env : DiffEnv) : IRExpr → Prop
  | .rdTmp t => t < env.tOffset
  | .getI d _ _ => d.nElems ∣ env.totalSizeB
  | .load ty _ => ty ≠ .f32
  | _ => True

instance IRExpr.decOriginalNode (env : DiffEnv) : DecidablePred (IRExpr.originalNode env)
  | .rdTmp _ => Nat.decLt _ _
  | .getI _ _ _ => Nat.decidable_dvd _ _
  | .load _ _ => instDecidableNot
  | .const _ | .get _ _ | .unop _ _ | .binop _ _ _ | .triop _ _ _ _
  | .qop _ _ _ _ _ | .ite _ _ _ | .ccall _ _ _ _ => instDecidableTrue

/-- An expression of the original block, as `differentiate_expr` expects it. -/
def IRExpr.original (env : DiffEnv) (e : IRExpr) : Prop := e.all (IRExpr.originalNode env)

instance (env : DiffEnv) (e : IRExpr) : Decidable (e.original env) :=
  inferInstanceAs (Decidable (e.all _))

theorem IRExpr.original.tmpsBelow {env : DiffEnv} {e : IRExpr} (he : e.original env) :
    e.tmpsBelow env.tOffset :=
  IRExpr.all_imp (fun e' he' => by cases e' <;> trivial) e he

variable {K : Type} [LinearOrderedField K]

/-- The tangent of an expression over dual numbers, for `differentiate_expr`'s fragment, the
primal values being those of `I`. A location read contributes its shadow: temporary
`t + t_offset`, guest offset `o + total_sizeB`, the shadow map's bytes for memory. The
operators follow the sum, difference, product and quotient rules, `d / (2 sqrt x)` for the
square root, `-d` for the absolute value below zero and `d` elsewhere; a constant has
tangent zero and `ITE` the tangent of the branch it selects. -/
def tangent (I : Interp (Val K)) (sqrt : K → K) (env : DiffEnv) (s : State (Val K) ShadowMap) :
    IRExpr → K
  | .rdTmp t => (s.tmps (t + env.tOffset)).toReal
  | .get off ty => (I.decode ty (readBytes s.guest (off + env.totalSizeB) (sizeofIRType ty))).toReal
  | .getI d ix bias =>
    (I.decode d.elemTy (readBytes s.guest (d.elemOffset (I.toInt (eval I s ix)) bias +
      env.totalSizeB) (sizeofIRType d.elemTy))).toReal
  | .load ty a =>
    (I.decode ty (readBytes s.tool (I.toAddr (eval I s a)) (sizeofIRType ty))).toReal
  | .unop (.neg _) a => -tangent I sqrt env s a
  | .unop (.abs _) a =>
    if (eval I s a).toReal < 0 then -tangent I sqrt env s a else tangent I sqrt env s a
  | .binop (.sqrt _) _ a => tangent I sqrt env s a / (2 * sqrt (eval I s a).toReal)
  | .triop (.add _) _ a b => tangent I sqrt env s a + tangent I sqrt env s b
  | .triop (.sub _) _ a b => tangent I sqrt env s a - tangent I sqrt env s b
  | .triop (.mul _) _ a b =>
    tangent I sqrt env s a * (eval I s b).toReal + (eval I s a).toReal * tangent I sqrt env s b
  | .triop (.div _) _ a b =>
    (tangent I sqrt env s a * (eval I s b).toReal - (eval I s a).toReal * tangent I sqrt env s b) /
      (eval I s b).toReal ^ 2
  | .ite c a b => if I.isTrue (eval I s c) then tangent I sqrt env s a else tangent I sqrt env s b
  | _ => 0

section Equations
variable (I : Interp (Val K)) (sqrt : K → K) (env : DiffEnv) (s : State (Val K) ShadowMap)
  (sh : FShape) (r a b : IRExpr)

theorem tangent_rdTmp (t : Nat) :
    tangent I sqrt env s (.rdTmp t) = (s.tmps (t + env.tOffset)).toReal := rfl

theorem tangent_get (off : Nat) (ty : IRType) :
    tangent I sqrt env s (.get off ty) =
      (I.decode ty (readBytes s.guest (off + env.totalSizeB) (sizeofIRType ty))).toReal := rfl

theorem tangent_getI (d : IRRegArray) (ix : IRExpr) (bias : Int) :
    tangent I sqrt env s (.getI d ix bias) = (I.decode d.elemTy (readBytes s.guest
      (d.elemOffset (I.toInt (eval I s ix)) bias + env.totalSizeB) (sizeofIRType d.elemTy))).toReal :=
  rfl

theorem tangent_load (ty : IRType) :
    tangent I sqrt env s (.load ty a) =
      (I.decode ty (readBytes s.tool (I.toAddr (eval I s a)) (sizeofIRType ty))).toReal := rfl

theorem tangent_neg : tangent I sqrt env s (.unop (.neg sh) a) = -tangent I sqrt env s a := rfl

theorem tangent_abs : tangent I sqrt env s (.unop (.abs sh) a) =
    if (eval I s a).toReal < 0 then -tangent I sqrt env s a else tangent I sqrt env s a := rfl

theorem tangent_sqrt : tangent I sqrt env s (.binop (.sqrt sh) r a) =
    tangent I sqrt env s a / (2 * sqrt (eval I s a).toReal) := rfl

theorem tangent_add : tangent I sqrt env s (.triop (.add sh) r a b) =
    tangent I sqrt env s a + tangent I sqrt env s b := rfl

theorem tangent_sub : tangent I sqrt env s (.triop (.sub sh) r a b) =
    tangent I sqrt env s a - tangent I sqrt env s b := rfl

theorem tangent_mul : tangent I sqrt env s (.triop (.mul sh) r a b) =
    tangent I sqrt env s a * (eval I s b).toReal + (eval I s a).toReal * tangent I sqrt env s b :=
  rfl

theorem tangent_div : tangent I sqrt env s (.triop (.div sh) r a b) =
    (tangent I sqrt env s a * (eval I s b).toReal - (eval I s a).toReal * tangent I sqrt env s b) /
      (eval I s b).toReal ^ 2 := rfl

theorem tangent_ite : tangent I sqrt env s (.ite r a b) =
    if I.isTrue (eval I s r) then tangent I sqrt env s a else tangent I sqrt env s b := rfl

end Equations

/-! ## Exact arithmetic on the fragment -/

section Exact

variable (A : ExactArith K) (ext : Interp (Val K))

theorem toReal_exactConst_zero (c : IRConst) : (exactConst A c.zero).toReal = 0 := by
  cases c <;> simp only [IRConst.zero, exactConst, Val.toReal, Nat.cast_zero, Rat.cast_zero,
    Bool.toNat_false]
  exacts [A.decodeF32_zero, A.decodeF64_zero]

section Scalar

variable {s : FShape} (hs : s.isScalar = true) (r x y : Val K)
include hs

theorem exactTriop_add : (exactTriop ext (.add s) r x y).toReal = x.toReal + y.toReal := by
  cases s <;> first | rfl | cases hs

theorem exactTriop_sub : (exactTriop ext (.sub s) r x y).toReal = x.toReal - y.toReal := by
  cases s <;> first | rfl | cases hs

theorem exactTriop_mul : (exactTriop ext (.mul s) r x y).toReal = x.toReal * y.toReal := by
  cases s <;> first | rfl | cases hs

theorem exactTriop_div : (exactTriop ext (.div s) r x y).toReal = x.toReal / y.toReal := by
  cases s <;> first | rfl | cases hs

theorem exactUnop_neg : (exactUnop A ext (.neg s) x).toReal = -x.toReal := by
  cases s <;> first | rfl | cases hs

theorem exactBinop_sqrt : (exactBinop A ext (.sqrt s) r x).toReal = A.sqrt x.toReal := by
  cases s <;> first | rfl | cases hs

theorem toReal_exactConst_two : (exactConst A s.two).toReal = 2 := by
  cases s <;> simp [FShape.isScalar] at hs <;> simp [FShape.two, exactConst, Val.toReal]

/-- The condition of the absolute value's select, `32to1(CmpF(x, 0.))`, holds exactly when
`x < 0`. -/
theorem isTrue_cmp_zero :
    (exactInterp A ext).isTrue
      (exactUnop A ext (.lo .i32 .i1) (exactBinop A ext (.cmp s) x (exactConst A s.zeroConst))) =
      decide (x.toReal < 0) := by
  have h0 : (exactConst A s.zeroConst).toReal = 0 := by
    cases s <;> simp [FShape.isScalar] at hs <;> simp [FShape.zeroConst, exactConst, Val.toReal]
  have hcmp : exactBinop A ext (.cmp s) x (exactConst A s.zeroConst) =
      .word (cmpResult x.toReal 0) := by
    rw [← h0]; cases s <;> first | rfl | cases hs
  rw [hcmp, exactUnop_lo_word]
  show (cmpResult x.toReal 0 % 2 ^ 1 % 2 == 1) = decide (x.toReal < 0)
  unfold cmpResult
  split_ifs <;> simp_all

end Scalar

/-- Converting the 8-byte integer `nl_Load_diffN` returned back to a type `canConvertToI64`
accepts gives the type's value of the shadow bytes. -/
theorem exactUnop_convertFromInteger (s : State (Val K) ShadowMap) {ty : IRType}
    (hty : canConvertToI64 ty = true) (t : Nat) (bs : List UInt8)
    (hbs : bs.length = sizeofIRType ty)
    (ht : s.tmps t = .word (leNat (bs ++ List.replicate (8 - sizeofIRType ty) 0))) :
    eval (exactInterp A ext) s (convertFromInteger (.rdTmp t) ty) = exactDecode A ext ty bs := by
  have hlt := leNat_lt bs
  cases ty <;> simp [canConvertToI64] at hty <;> simp only [sizeofIRType] at hbs ht <;>
    simp only [convertFromInteger, eval, ht, leNat_append_zeros, exactInterp_unop,
      exactUnop_lo_word, exactUnop_reinterp_f64, exactUnop_reinterp_f32, exactDecode,
      IRType.intWidth, sizeofIRType]
  case i8 | i16 | i32 => rw [Nat.mod_eq_of_lt (by simpa [hbs] using hlt)]
  case f32 | f64 => rw [← hbs, leBytes_leNat]

end Exact

/-! ## The conversion of a shadow load, typed -/

/-- The conversion `differentiate_expr` applies to the `I64` that `nl_Load_diffN` returns passes
VEX's type check for every loaded type but `F32`: for `F32`, `Iop_ReinterpI32asF32` takes an
`I32` and is given the `I64`. -/
theorem convertFromInteger_unopsTyped {tyenv : List IRType} {t : Nat} (ht : tyenv.getD t .i64 = .i64)
    {ty : IRType} (hty : canConvertToI64 ty = true) :
    (convertFromInteger (.rdTmp t) ty).unopsTyped tyenv ↔ ty ≠ .f32 := by
  have h : (IRExpr.rdTmp t).type tyenv = .i64 := ht
  cases ty <;> simp [canConvertToI64] at hty <;>
    simp [convertFromInteger, IRExpr.unopsTyped, IRExpr.all, IRExpr.unopTyped, IROp.unopArgType, h]

/-- `differentiate_expr(LDle:F32(t0))` in a block with one `I64` temporary and its shadow: it
appends `t2 = nl_Load_diff4(t0)`, an `I64`, and `t3:F32 = ReinterpI32asF32(t2)`, which VEX's
type check rejects, and returns `t3`. -/
theorem differentiateExpr_loadF32_illTyped :
    differentiateExpr ⟨1, 16⟩ (.load .f32 (.rdTmp 0)) ⟨[.i64, .i64], [], .const (.u64 0)⟩ =
        (some (.rdTmp 3), ⟨[.i64, .i64, .i64, .f32],
          [.dirty (loadDiffDirty .f32 (.rdTmp 0) 2), .wrTmp 3 (.unop (.reinterp .i32 .f32) (.rdTmp 2))],
          .const (.u64 0)⟩) ∧
      ¬(IRExpr.unop (.reinterp .i32 .f32) (.rdTmp 2)).unopsTyped [.i64, .i64, .i64, .f32] :=
  ⟨rfl, by decide⟩

section Helpers

variable {V : Type} (I : Interp V) (tyenv : List IRType)

theorem nlToolCall_nlLoadDiff_tool (n : Nat) (args : List V) (sm : ShadowMap) :
    (nlToolCall I (.nlLoadDiff n) args sm).2 = sm := by
  rcases args with _ | ⟨a, _ | ⟨b, l⟩⟩ <;> rfl

/-- A helper statement assigns its temporary and changes nothing else. -/
theorem execStmt_freshOnly (s : State V ShadowMap) {m : Nat} :
    ∀ st : IRStmt, st.freshOnly m →
      ∃ f, execStmt I (nlToolCall I) tyenv s st = { s with tmps := f } ∧ ∀ t < m, f t = s.tmps t
  | .wrTmp t _, (ht : m ≤ t) => ⟨_, rfl, fun _ h => Function.update_noteq (by omega) _ _⟩
  | .dirty d, ⟨⟨n, hc⟩, ht⟩ => by
    have hne : ∀ v : V, ∀ t < m, setTmp s.tmps d.tmp v t = s.tmps t :=
      fun v t h => setTmp_apply_of_ne _ v fun u hu => by have := ht u hu; omega
    simp only [execStmt]
    split_ifs
    · rw [callDirty_of_tool I _ s d (by rw [hc]; rfl)]
      exact ⟨setTmp s.tmps d.tmp (nlToolCall I d.cee (d.args.map (eval I s)) s.tool).1,
        by rw [hc, nlToolCall_nlLoadDiff_tool], hne _⟩
    · exact ⟨_, rfl, hne _⟩
  | .noOp, h | .imark, h | .abiHint, h | .put _ _, h | .putI _ _ _ _, h | .store _ _, h
  | .storeG _ _ _, h | .loadG _ _ _ _ _, h | .cas _, h | .llsc _ _ _, h | .mbe, h
  | .exit _ _, h => (h : False).elim

theorem freshRun_of_freshOnly {m : Nat} :
    ∀ sts : List IRStmt, (∀ st ∈ sts, st.freshOnly m) → FreshRun I (nlToolCall I) tyenv m sts
  | [], _ => FreshRun.nil
  | st :: sts, h => fun s hs => by
    obtain ⟨f, hf, hfm⟩ := execStmt_freshOnly I tyenv s st (h st (List.mem_cons_self _ _))
    obtain ⟨g, hg, hgm⟩ := freshRun_of_freshOnly sts
      (fun st' h' => h st' (List.mem_cons_of_mem _ h')) { s with tmps := f } hs
    exact ⟨g, by rw [execStmts_cons_of_running I _ tyenv hs, hf, hg],
      fun t ht => (hgm t ht).trans (hfm t ht)⟩

/-- The helper statements `differentiate_expr` emits only assign fresh temporaries. -/
theorem differentiateExpr_freshRun (env : DiffEnv) (e : IRExpr) {sb : IRSB} {hs : List IRStmt}
    (h : (differentiateExpr env e sb).2.stmts = sb.stmts ++ hs) :
    FreshRun I (nlToolCall I) tyenv sb.tyenv.length hs := by
  obtain ⟨-, ⟨sh, hsh, hfresh⟩, -⟩ := differentiateExpr_grows env sb e
  rw [hsh, List.append_cancel_left_eq] at h
  exact freshRun_of_freshOnly I tyenv hs (h ▸ hfresh)

end Helpers

section ExactRun

variable (A : ExactArith K) (ext : Interp (Val K))

/-- `nl_Load_diffN` serves every type `canConvertToI64` accepts. -/
theorem sizeofIRType_le_of_canConvertToI64 {ty : IRType} (h : canConvertToI64 ty = true) :
    sizeofIRType ty ≤ 8 := by
  cases ty <;> simp_all [canConvertToI64, sizeofIRType]

/-- The helpers of a shadow load leave, in their second temporary, the value of the shadow
bytes as a value of the loaded type. -/
theorem execStmts_shadowLoad (tyenv : List IRType) (s : State (Val K) ShadowMap)
    (hs : s.exit = none) {ty : IRType} (hty : canConvertToI64 ty = true) (addr : IRExpr)
    (L : Nat) :
    (execStmts (exactInterp A ext) (nlToolCall (exactInterp A ext)) tyenv s
      [.dirty (loadDiffDirty ty addr L), .wrTmp (L + 1) (convertFromInteger (.rdTmp L) ty)]).tmps
        (L + 1) =
      exactDecode A ext ty (readBytes s.tool
        ((exactInterp A ext).toAddr (eval (exactInterp A ext) s addr)) (sizeofIRType ty)) := by
  have hg : (exactInterp A ext).isTrue (eval (exactInterp A ext) s (.const (.u1 true))) = true :=
    rfl
  simp only [execStmts, hs, execStmt, loadDiffDirty, hg, if_true, callDirty]
  simp only [Function.update_same]
  refine exactUnop_convertFromInteger A ext _ hty L _ (length_readBytes _ _ _) ?_
  simp only [setTmp, Function.update_same, List.map, nlToolCall, exactInterp_decode, exactDecode,
    nlLoadDiff_toList _ _ (sizeofIRType_le_of_canConvertToI64 hty)]

/-- The helpers of a node with two differentiated arguments: those of the first, then those
of the second. -/
theorem helpers_split (env : DiffEnv) {e₁ e₂ : IRExpr} {sb : IRSB} {hs : List IRStmt}
    (h : (differentiateExpr env e₂ (differentiateExpr env e₁ sb).2).2.stmts = sb.stmts ++ hs) :
    ∃ hs₁ hs₂, hs = hs₁ ++ hs₂ ∧ (differentiateExpr env e₁ sb).2.stmts = sb.stmts ++ hs₁ ∧
      (differentiateExpr env e₂ (differentiateExpr env e₁ sb).2).2.stmts =
        (differentiateExpr env e₁ sb).2.stmts ++ hs₂ := by
  obtain ⟨-, ⟨hs₁, h₁, -⟩, -⟩ := differentiateExpr_grows env sb e₁
  obtain ⟨-, ⟨hs₂, h₂, -⟩, -⟩ := differentiateExpr_grows env (differentiateExpr env e₁ sb).2 e₂
  refine ⟨hs₁, hs₂, ?_, h₁, h₂⟩
  rw [h₂, h₁, List.append_assoc] at h
  exact (List.append_cancel_left h).symm

variable (env : DiffEnv) (tyenv : List IRType)

/-- After the helper statements `hs`, run from any state whose original and shadow
temporaries are those of `s`, the expression `d` evaluates to the tangent of `e` in `s`. -/
def TangentAfter (e d : IRExpr) (hs : List IRStmt) : Prop :=
  ∀ (s : State (Val K) ShadowMap) (f : Nat → Val K), s.exit = none →
    (∀ t < 2 * env.tOffset, f t = s.tmps t) →
    (eval (exactInterp A ext) (execStmts (exactInterp A ext) (nlToolCall (exactInterp A ext))
      tyenv { s with tmps := f } hs) d).toReal = tangent (exactInterp A ext) A.sqrt env s e

/-- The helpers of one differentiated argument assign fresh temporaries only: after them its
tangent expression has its tangent, and every original expression its value in `s`. -/
theorem tangent_run_one {a d : IRExpr} {sb : IRSB} {hs : List IRStmt}
    (hst : (differentiateExpr env a sb).2.stmts = sb.stmts ++ hs)
    (hn : 2 * env.tOffset ≤ sb.tyenv.length) (hE : TangentAfter A ext env tyenv a d hs)
    (s : State (Val K) ShadowMap) (f : Nat → Val K) (hs0 : s.exit = none)
    (hf : ∀ t < 2 * env.tOffset, f t = s.tmps t) :
    ∃ f', execStmts (exactInterp A ext) (nlToolCall (exactInterp A ext)) tyenv
        { s with tmps := f } hs = { s with tmps := f' } ∧ (∀ t < sb.tyenv.length, f' t = f t) ∧
      (eval (exactInterp A ext) { s with tmps := f' } d).toReal =
        tangent (exactInterp A ext) A.sqrt env s a ∧
      ∀ c : IRExpr, c.original env →
        eval (exactInterp A ext) { s with tmps := f' } c = eval (exactInterp A ext) s c := by
  obtain ⟨f', hrun, hf'⟩ := differentiateExpr_freshRun (exactInterp A ext) tyenv env a hst
    { s with tmps := f } hs0
  dsimp only at hrun hf'
  have hE' := hE s f hs0 hf
  rw [hrun] at hE'
  exact ⟨f', hrun, hf', hE', fun c hc => eval_with_tmps _
    (fun t ht => (hf' t (by omega)).trans (hf t (by omega))) c hc.tmpsBelow⟩

/-- The helpers of two differentiated arguments, the first's then the second's: after them
both tangent expressions have their tangents, and every original expression its value. -/
theorem tangent_run_two {a b da db : IRExpr} {sb : IRSB} {hsa hsb : List IRStmt}
    (hsta : (differentiateExpr env a sb).2.stmts = sb.stmts ++ hsa)
    (hstb : (differentiateExpr env b (differentiateExpr env a sb).2).2.stmts =
      (differentiateExpr env a sb).2.stmts ++ hsb)
    (hn : 2 * env.tOffset ≤ sb.tyenv.length)
    (hdaT : da.tmpsBelow (differentiateExpr env a sb).2.tyenv.length)
    (hEa : TangentAfter A ext env tyenv a da hsa) (hEb : TangentAfter A ext env tyenv b db hsb)
    (s : State (Val K) ShadowMap) (f : Nat → Val K) (hs0 : s.exit = none)
    (hf : ∀ t < 2 * env.tOffset, f t = s.tmps t) :
    ∃ f', execStmts (exactInterp A ext) (nlToolCall (exactInterp A ext)) tyenv
        { s with tmps := f } (hsa ++ hsb) = { s with tmps := f' } ∧
      (eval (exactInterp A ext) { s with tmps := f' } da).toReal =
        tangent (exactInterp A ext) A.sqrt env s a ∧
      (eval (exactInterp A ext) { s with tmps := f' } db).toReal =
        tangent (exactInterp A ext) A.sqrt env s b ∧
      ∀ c : IRExpr, c.original env →
        eval (exactInterp A ext) { s with tmps := f' } c = eval (exactInterp A ext) s c := by
  have hL := (differentiateExpr_grows env sb a).length_le
  obtain ⟨fa, hruna, hfa, hEa', -⟩ := tangent_run_one A ext env tyenv hsta hn hEa s f hs0 hf
  obtain ⟨fb, hrunb, hfb, hEb', hx⟩ := tangent_run_one A ext env tyenv hstb (by omega) hEb s fa
    hs0 fun t ht => (hfa t (by omega)).trans (hf t ht)
  refine ⟨fb, by rw [execStmts_append, hruna, hrunb], ?_, hEb', hx⟩
  rw [← hEa']
  exact congrArg Val.toReal (eval_update_tmps _ hfb da hdaT)

/-- The induction behind `differentiateExpr_tangent`: the tangent expression reads only
temporaries of the output block, and once the helpers have run from a state whose original
and shadow temporaries are those of `s`, it evaluates to the tangent in `s`. -/
theorem differentiateExpr_tangent_run :
    ∀ (e : IRExpr) {sb : IRSB} {d : IRExpr} {hs : List IRStmt},
      (differentiateExpr env e sb).1 = some d → e.original env →
      2 * env.tOffset ≤ sb.tyenv.length →
      (differentiateExpr env e sb).2.stmts = sb.stmts ++ hs →
      d.tmpsBelow (differentiateExpr env e sb).2.tyenv.length ∧
        TangentAfter A ext env tyenv e d hs := by
  intro e
  induction e with
  | const c =>
    intro sb d hs hd _ _ hst
    simp only [differentiateExpr, Option.some.injEq] at hd hst ⊢
    subst hd
    obtain rfl : hs = [] := by simpa using hst
    exact ⟨trivial, fun s f _ _ => toReal_exactConst_zero A c⟩
  | rdTmp t =>
    intro sb d hs hd (ht : t < env.tOffset) hn hst
    simp only [differentiateExpr, Option.some.injEq] at hd hst ⊢
    subst hd
    obtain rfl : hs = [] := by simpa using hst
    refine ⟨show t + env.tOffset < sb.tyenv.length by omega, fun s f _ hf => ?_⟩
    simp only [execStmts_nil, eval, tangent_rdTmp]
    rw [hf (t + env.tOffset) (by omega)]
  | get off ty =>
    intro sb d hs hd _ _ hst
    simp only [differentiateExpr, Option.some.injEq] at hd hst ⊢
    subst hd
    obtain rfl : hs = [] := by simpa using hst
    exact ⟨trivial, fun s f _ _ => rfl⟩
  | getI descr ix bias _ =>
    intro sb d hs hd ⟨hdvd, (hix : ix.original env)⟩ hn hst
    simp only [differentiateExpr, Option.some.injEq] at hd hst ⊢
    subst hd
    obtain rfl : hs = [] := by simpa using hst
    refine ⟨⟨trivial, hix.tmpsBelow.mono (by omega)⟩, fun s f _ hf => ?_⟩
    simp only [execStmts_nil, eval, tangent_getI,
      eval_with_tmps _ (fun t ht => hf t (by omega)) ix hix.tmpsBelow,
      descr.elemOffset_shift hdvd]
  | load ty a _ =>
    intro sb d hs hd ⟨_, (ha : a.original env)⟩ hn hst
    by_cases hty : canConvertToI64 ty = true
    · rw [differentiateExpr_load env sb hty] at hd hst ⊢
      simp only [Option.some.injEq, List.append_cancel_left_eq] at hd hst
      subst hd hst
      refine ⟨show sb.tyenv.length + 1 < (sb.tyenv ++ [.i64, ty]).length by simp,
        fun s f hs0 hf => ?_⟩
      simp only [eval]
      rw [execStmts_shadowLoad A ext tyenv { s with tmps := f } hs0 hty,
        eval_with_tmps _ (fun t ht => hf t (by omega)) a ha.tmpsBelow]
      rfl
    · simp [differentiateExpr, hty] at hd
  | unop op a ih =>
    intro sb d hs hd ⟨_, (ha : a.original env)⟩ hn hst
    rw [differentiateExpr_unop] at hd hst ⊢
    dsimp only at hst ⊢
    obtain ⟨da, hda, hud⟩ := Option.bind_eq_some.mp hd
    obtain ⟨hdaT, hdaE⟩ := ih hda ha hn hst
    unfold unopDerivative at hud
    split at hud
    · obtain ⟨hsc, ⟨⟩⟩ := Option.ite_none_right_eq_some.mp hud
      refine ⟨⟨trivial, hdaT⟩, fun s f hs0 hf => ?_⟩
      simp only [eval, exactInterp_unop, exactUnop_neg A ext hsc, hdaE s f hs0 hf, tangent_neg]
    · obtain ⟨hsc, ⟨⟩⟩ := Option.ite_none_right_eq_some.mp hud
      have hL := (differentiateExpr_grows env sb a).length_le
      refine ⟨⟨trivial, ⟨trivial, trivial, ha.tmpsBelow.mono (by omega), trivial⟩, ⟨trivial, hdaT⟩,
        hdaT⟩, fun s f hs0 hf => ?_⟩
      obtain ⟨f', hrun, -, hD, hx⟩ := tangent_run_one A ext env tyenv hst hn hdaE s f hs0 hf
      rw [hrun]
      simp only [eval, exactInterp_unop, exactInterp_binop, exactInterp_const, hx a ha,
        isTrue_cmp_zero A ext hsc, decide_eq_true_eq, tangent_abs]
      split_ifs <;> simp only [exactUnop_neg A ext hsc, hD]
    · cases hud
  | binop op a₁ a₂ _ ih₂ =>
    intro sb d hs hd ⟨_, (ha₁ : a₁.original env), (ha₂ : a₂.original env)⟩ hn hst
    rw [differentiateExpr_binop] at hd hst ⊢
    dsimp only at hst ⊢
    obtain ⟨d₂, hd₂, hbd⟩ := Option.bind_eq_some.mp hd
    obtain ⟨hd₂T, hd₂E⟩ := ih₂ hd₂ ha₂ hn hst
    have hL := (differentiateExpr_grows env sb a₂).length_le
    unfold binopDerivative at hbd
    split at hbd
    · obtain ⟨hsc, ⟨⟩⟩ := Option.ite_none_right_eq_some.mp hbd
      refine ⟨⟨trivial, ha₁.tmpsBelow.mono (by omega), hd₂T, trivial,
        ha₁.tmpsBelow.mono (by omega), trivial, trivial, ha₁.tmpsBelow.mono (by omega),
        ha₂.tmpsBelow.mono (by omega)⟩, fun s f hs0 hf => ?_⟩
      obtain ⟨f', hrun, -, hD, hx⟩ := tangent_run_one A ext env tyenv hst hn hd₂E s f hs0 hf
      rw [hrun]
      simp only [eval, exactInterp_triop, exactInterp_binop, exactInterp_const,
        exactTriop_div ext hsc, exactTriop_mul ext hsc, exactBinop_sqrt A ext hsc,
        toReal_exactConst_two A hsc, hD, hx a₂ ha₂, tangent_sqrt]
    · cases hbd
  | triop op a₁ a₂ a₃ _ ih₂ ih₃ =>
    intro sb d hs hd ⟨_, (ha₁ : a₁.original env), (ha₂ : a₂.original env),
      (ha₃ : a₃.original env)⟩ hn hst
    rw [differentiateExpr_triop] at hd hst ⊢
    dsimp only at hst ⊢
    obtain ⟨d₂, hd₂, hd'⟩ := Option.bind_eq_some.mp hd
    obtain ⟨d₃, hd₃, htd⟩ := Option.bind_eq_some.mp hd'
    obtain ⟨hs₂, hs₃, rfl, hst₂, hst₃⟩ := helpers_split env hst
    have hL₂ := (differentiateExpr_grows env sb a₂).length_le
    have hL₃ := (differentiateExpr_grows env (differentiateExpr env a₂ sb).2 a₃).length_le
    obtain ⟨hd₂T, hd₂E⟩ := ih₂ hd₂ ha₂ hn hst₂
    obtain ⟨hd₃T, hd₃E⟩ := ih₃ hd₃ ha₃ (by omega) hst₃
    have hA : ∀ {a : IRExpr}, a.original env →
        a.tmpsBelow (differentiateExpr env a₃ (differentiateExpr env a₂ sb).2).2.tyenv.length :=
      fun ha => ha.tmpsBelow.mono (by omega)
    have hD₂ := hd₂T.mono hL₃
    have hsem := tangent_run_two A ext env tyenv hst₂ hst₃ hn hd₂T hd₂E hd₃E
    unfold triopDerivative at htd
    split at htd
    all_goals first
      | cases htd
      | obtain ⟨hsc, ⟨⟩⟩ := Option.ite_none_right_eq_some.mp htd
    · refine ⟨⟨trivial, hA ha₁, hD₂, hd₃T⟩, fun s f hs0 hf => ?_⟩
      obtain ⟨f', hrun, hE₂, hE₃, -⟩ := hsem s f hs0 hf
      simp only [hrun, eval, exactInterp_triop, exactTriop_add ext hsc, hE₂, hE₃, tangent_add]
    · refine ⟨⟨trivial, hA ha₁, hD₂, hd₃T⟩, fun s f hs0 hf => ?_⟩
      obtain ⟨f', hrun, hE₂, hE₃, -⟩ := hsem s f hs0 hf
      simp only [hrun, eval, exactInterp_triop, exactTriop_sub ext hsc, hE₂, hE₃, tangent_sub]
    · refine ⟨⟨trivial, hA ha₁, ⟨trivial, hA ha₁, hD₂, hA ha₃⟩, ⟨trivial, hA ha₁, hd₃T, hA ha₂⟩⟩,
        fun s f hs0 hf => ?_⟩
      obtain ⟨f', hrun, hE₂, hE₃, hx⟩ := hsem s f hs0 hf
      simp only [hrun, eval, exactInterp_triop, exactTriop_add ext hsc, exactTriop_mul ext hsc, hE₂,
        hE₃, hx a₂ ha₂, hx a₃ ha₃, tangent_mul]
      ring
    · refine ⟨⟨trivial, hA ha₁, ⟨trivial, hA ha₁, ⟨trivial, hA ha₁, hD₂, hA ha₃⟩,
        ⟨trivial, hA ha₁, hd₃T, hA ha₂⟩⟩, ⟨trivial, hA ha₁, hA ha₃, hA ha₃⟩⟩, fun s f hs0 hf => ?_⟩
      obtain ⟨f', hrun, hE₂, hE₃, hx⟩ := hsem s f hs0 hf
      simp only [hrun, eval, exactInterp_triop, exactTriop_div ext hsc, exactTriop_sub ext hsc,
        exactTriop_mul ext hsc, hE₂, hE₃, hx a₂ ha₂, hx a₃ ha₃, tangent_div]
      ring
  | ite c a b _ iha ihb =>
    intro sb d hs hd ⟨_, (hc : c.original env), (ha : a.original env), (hb : b.original env)⟩ hn hst
    rw [differentiateExpr_ite] at hd hst ⊢
    dsimp only at hst ⊢
    obtain ⟨da, hda, hd'⟩ := Option.bind_eq_some.mp hd
    obtain ⟨db, hdb, ⟨⟩⟩ := Option.map_eq_some'.mp hd'
    obtain ⟨hsa, hsb, rfl, hsta, hstb⟩ := helpers_split env hst
    have hLa := (differentiateExpr_grows env sb a).length_le
    have hLb := (differentiateExpr_grows env (differentiateExpr env a sb).2 b).length_le
    obtain ⟨hdaT, hdaE⟩ := iha hda ha hn hsta
    obtain ⟨hdbT, hdbE⟩ := ihb hdb hb (by omega) hstb
    refine ⟨⟨trivial, hc.tmpsBelow.mono (by omega), hdaT.mono hLb, hdbT⟩, fun s f hs0 hf => ?_⟩
    obtain ⟨f', hrun, hEa, hEb, hx⟩ :=
      tangent_run_two A ext env tyenv hsta hstb hn hdaT hdaE hdbE s f hs0 hf
    rw [hrun]
    simp only [eval, hx c hc, tangent_ite]
    split_ifs
    exacts [hEa, hEb]
  | qop _ _ _ _ _ _ _ _ _ | ccall _ _ _ _ _ =>
    intro sb d hs hd
    simp [differentiateExpr] at hd

/-- `differentiate_expr` is correct on its fragment: if it returns an expression `d` for an
expression `e` of the original block, then, once the helper statements it appended have run
from any state, `d` evaluates under exact arithmetic to the dual-number tangent of `e`, each
location's tangent being its shadow. -/
theorem differentiateExpr_tangent {sb : IRSB} {e d : IRExpr}
    (hd : (differentiateExpr env e sb).1 = some d) (he : e.original env)
    (hn : 2 * env.tOffset ≤ sb.tyenv.length) (s : State (Val K) ShadowMap) (hs : s.exit = none) :
    (eval (exactInterp A ext) (execStmts (exactInterp A ext) (nlToolCall (exactInterp A ext)) tyenv s
      ((differentiateExpr env e sb).2.stmts.drop sb.stmts.length)) d).toReal =
      tangent (exactInterp A ext) A.sqrt env s e := by
  obtain ⟨-, ⟨hs', hst, -⟩, -⟩ := differentiateExpr_grows env sb e
  rw [hst, List.drop_left]
  exact (differentiateExpr_tangent_run A ext env tyenv e hd he hn hst).2 s s.tmps hs fun _ _ => rfl

end ExactRun

/- `MulF64(t1, LDle:F64(t0))` in a block with two original temporaries: its tangent expression
`t3 * LDle:F64(t0) + t5 * t1`, `t5` holding the shadow of the loaded value. -/
example :
    (eval (exactInterp ExactArith.rat Interp.inert)
      (execStmts (exactInterp ExactArith.rat Interp.inert)
        (nlToolCall (exactInterp ExactArith.rat Interp.inert)) []
        ⟨fun _ => .word 0, fun _ => 0, fun _ => 0, shadowInitializeMap, none⟩
        ((differentiateExpr ⟨2, 16⟩ (.triop (.mul .f64) (.const (.u32 0)) (.rdTmp 1)
          (.load .f64 (.rdTmp 0))) ⟨[.i64, .f64, .i64, .f64], [], .const (.u64 0)⟩).2.stmts.drop 0))
      (.triop (.add .f64) (.const (.u32 0))
        (.triop (.mul .f64) (.const (.u32 0)) (.rdTmp 3) (.load .f64 (.rdTmp 0)))
        (.triop (.mul .f64) (.const (.u32 0)) (.rdTmp 5) (.rdTmp 1)))).toReal =
      tangent (exactInterp ExactArith.rat Interp.inert) ExactArith.rat.sqrt ⟨2, 16⟩
        ⟨fun _ => .word 0, fun _ => 0, fun _ => 0, shadowInitializeMap, none⟩
        (.triop (.mul .f64) (.const (.u32 0)) (.rdTmp 1) (.load .f64 (.rdTmp 0))) :=
  differentiateExpr_tangent ExactArith.rat Interp.inert ⟨2, 16⟩ []
    (show (differentiateExpr ⟨2, 16⟩ (.triop (.mul .f64) (.const (.u32 0)) (.rdTmp 1)
      (.load .f64 (.rdTmp 0))) ⟨[.i64, .f64, .i64, .f64], [], .const (.u64 0)⟩).1 =
        some (.triop (.add .f64) (.const (.u32 0))
          (.triop (.mul .f64) (.const (.u32 0)) (.rdTmp 3) (.load .f64 (.rdTmp 0)))
          (.triop (.mul .f64) (.const (.u32 0)) (.rdTmp 5) (.rdTmp 1))) from rfl)
    (by decide) (by decide) _ rfl


end Derivgrind
