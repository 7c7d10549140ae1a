import Derivgrind.Nulgrind.Tangent

/-!
# Derivgrind.Nulgrind.Forward

Forward mode over a whole block. `differentiateExpr_tangent` says what the tangent expression
of one expression evaluates to; here the statements `nl_instrument` emits for a block of
assignments to temporaries run one after the other, and the block ends holding in each
temporary its value and in its shadow its tangent.

The specification is the forward-mode run of the original block (`forwardRun`): an
assignment `t = e` sets `t` to the value of `e` and its shadow `t + t_offset` to the tangent
of `e`, both taken in the state before it, with no helper temporaries. The instrumented
block computes the same through the helper statements of `differentiate_expr` and its own
order of assignments; the two end states agree up to the helpers' fresh temporaries and up
to how a tangent is stored (`DualAgree`). The main result is that `nl_instrument` refines the
forward-mode run on every block of this fragment, from every state
(`nlInstrument_forward`).
-/

namespace Derivgrind

/-! ## The fragment -/

section Fragment
variable (env : DiffEnv)

/-- The statements of the fragment: an assignment to an original temporary of an original
expression that `differentiate_expr` differentiates, and the markers `IMark`, `NoOp` and
`AbiHint`. -/
def IRStmt.forward : IRStmt → Prop
  | .wrTmp t e => t < env.tOffset ∧ e.original env ∧ e.differentiates env
  | .noOp | .imark | .abiHint => True
  | _ => False

instance IRStmt.decForward : DecidablePred (IRStmt.forward env)
  | .wrTmp _ _ => instDecidableAnd
  | .noOp | .imark | .abiHint => instDecidableTrue
  | .put _ _ | .putI _ _ _ _ | .store _ _ | .storeG _ _ _ | .loadG _ _ _ _ _ | .cas _
  | .llsc _ _ _ | .dirty _ | .mbe | .exit _ _ => instDecidableFalse

end Fragment

/-! ## The forward-mode run -/

variable {K : Type} [LinearOrderedField K]

section Spec
variable (I : Interp (Val K)) (sqrt : K → K) (env : DiffEnv)

/-- One statement in forward mode: `t = e` sets `t` to the value of `e` and its shadow
`t + t_offset` to the tangent of `e`, both in the state before; a marker changes nothing. -/
def forwardStep (s : State (Val K) ShadowMap) : IRStmt → State (Val K) ShadowMap
  | .wrTmp t e =>
    { s with tmps := Function.update (Function.update s.tmps (t + env.tOffset)
        (.num (tangent I sqrt env s e))) t (eval I s e) }
  | _ => s

/-- The forward-mode run of a list of statements. -/
def forwardRun (s : State (Val K) ShadowMap) (sts : List IRStmt) : State (Val K) ShadowMap :=
  sts.foldl (forwardStep I sqrt env) s

@[simp] theorem forwardRun_nil (s : State (Val K) ShadowMap) : forwardRun I sqrt env s [] = s := rfl

@[simp] theorem forwardRun_cons (s : State (Val K) ShadowMap) (st : IRStmt) (sts : List IRStmt) :
    forwardRun I sqrt env s (st :: sts) = forwardRun I sqrt env (forwardStep I sqrt env s st) sts :=
  rfl

@[simp] theorem forwardStep_exit (s : State (Val K) ShadowMap) (st : IRStmt) :
    (forwardStep I sqrt env s st).exit = s.exit := by
  cases st <;> rfl

end Spec

/-- Temporary `u` below `n` after assigning `t + n` and then `t`. -/
theorem update_update_of_lt {α : Type} (g : Nat → α) {n t u : Nat} (hu : u < n) (v w : α) :
    Function.update (Function.update g (t + n) v) t w u = if u = t then w else g u := by
  split_ifs with h
  · subst h; exact Function.update_same _ _ _
  · rw [Function.update_noteq h, Function.update_noteq (by omega)]

/-- The shadow `u + n` of a temporary `u` after assigning `t + n` and then `t`, for `t < n`. -/
theorem update_update_shadow {α : Type} (g : Nat → α) {n t : Nat} (ht : t < n) (u : Nat) (v w : α) :
    Function.update (Function.update g (t + n) v) t w (u + n) = if u = t then v else g (u + n) := by
  rw [Function.update_noteq (by omega)]
  split_ifs with h
  · subst h; exact Function.update_same _ _ _
  · exact Function.update_noteq (by omega) _ _

/-- Assigning a temporary from `m` on does not change an expression reading below `m`. -/
theorem eval_update_of_le {V T : Type} (I : Interp V) (s : State V T) {m a : Nat} (ha : m ≤ a)
    (v : V) (e : IRExpr) (he : e.tmpsBelow m) :
    eval I { s with tmps := Function.update s.tmps a v } e = eval I s e :=
  eval_with_tmps I (fun _ hx => Function.update_noteq (by omega) _ _) e he

/-! ## Agreement up to helpers and representation -/

/-- A state `s'` of the instrumented block agrees with a forward-mode state `s`: the same
original temporaries, shadows of original temporaries with the same number, and the same
guest state, memory, shadow map and exit. Helper temporaries, from `2 * t_offset` on, are
free. -/
structure DualAgree (env : DiffEnv) (s s' : State (Val K) ShadowMap) : Prop where
  value : ∀ t < env.tOffset, s'.tmps t = s.tmps t
  shadow : ∀ t < env.tOffset,
    (s'.tmps (t + env.tOffset)).toReal = (s.tmps (t + env.tOffset)).toReal
  guest : s'.guest = s.guest
  mem : s'.mem = s.mem
  tool : s'.tool = s.tool
  exit : s'.exit = s.exit

section Congr
variable (I : Interp (Val K)) (sqrt : K → K) {env : DiffEnv} {s s' : State (Val K) ShadowMap}

theorem DualAgree.refl (s : State (Val K) ShadowMap) : DualAgree env s s :=
  ⟨fun _ _ => rfl, fun _ _ => rfl, rfl, rfl, rfl, rfl⟩

theorem DualAgree.eval_eq (hA : DualAgree env s s') {e : IRExpr} (he : e.original env) :
    eval I s' e = eval I s e :=
  eval_tmps_congr I hA.guest hA.mem hA.value e he.tmpsBelow

/-- Agreeing states give an original expression the same tangent. -/
theorem DualAgree.tangent_eq (hA : DualAgree env s s') :
    ∀ e : IRExpr, e.original env → tangent I sqrt env s' e = tangent I sqrt env s e := by
  intro e
  induction e with
  | rdTmp t => exact hA.shadow t
  | get off ty => intro _; simp only [tangent_get, hA.guest]
  | getI d ix bias _ => rintro ⟨-, hix⟩; simp only [tangent_getI, hA.eval_eq I hix, hA.guest]
  | load ty a _ => rintro ⟨-, ha⟩; simp only [tangent_load, hA.eval_eq I ha, hA.tool]
  | unop op a ih =>
    rintro ⟨-, ha⟩
    cases op <;> first | simp only [tangent_neg, tangent_abs, ih ha, hA.eval_eq I ha] | rfl
  | binop op a₁ a₂ _ ih₂ =>
    rintro ⟨-, -, ha₂⟩
    cases op <;> first | simp only [tangent_sqrt, ih₂ ha₂, hA.eval_eq I ha₂] | rfl
  | triop op a₁ a₂ a₃ _ ih₂ ih₃ =>
    rintro ⟨-, -, ha₂, ha₃⟩
    cases op <;> first
      | simp only [tangent_add, tangent_sub, tangent_mul, tangent_div, ih₂ ha₂, ih₃ ha₃,
          hA.eval_eq I ha₂, hA.eval_eq I ha₃]
      | rfl
  | ite c a b _ iha ihb =>
    rintro ⟨-, hc, ha, hb⟩
    simp only [tangent_ite, iha ha, ihb hb, hA.eval_eq I hc]
  | _ => intro _; rfl

end Congr

/-! ## One statement, then the block -/

section Run
variable (A : ExactArith K) (ext : Interp (Val K)) (env : DiffEnv)

/-- An assignment: the helpers of `differentiate_expr`, the shadow assignment
`t + t_offset = d` and the assignment itself take a state that agrees with the forward-mode
state to one that agrees with its forward-mode step. -/
theorem forwardStep_wrTmp (tyenv : List IRType) {sb : IRSB} {t : Nat} {e d : IRExpr}
    {hs : List IRStmt} (ht : t < env.tOffset) (he : e.original env)
    (hd : (differentiateExpr env e sb).1 = some d)
    (hn : 2 * env.tOffset ≤ sb.tyenv.length)
    (hst : (differentiateExpr env e sb).2.stmts = sb.stmts ++ hs)
    {s s' : State (Val K) ShadowMap} (hs0 : s.exit = none) (hA : DualAgree env s s') :
    DualAgree env (forwardStep (exactInterp A ext) A.sqrt env s (.wrTmp t e))
      (execStmts (exactInterp A ext) (nlToolCall (exactInterp A ext)) tyenv s'
        (hs ++ [.wrTmp (t + env.tOffset) d, .wrTmp t e])) := by
  obtain ⟨tm, gu, me, tl, ex⟩ := s'
  obtain rfl : ex = none := hA.exit.trans hs0
  obtain ⟨-, hE⟩ := differentiateExpr_tangent_run A ext env tyenv e hd he hn hst
  obtain ⟨f, hrun, hf, hD, hx⟩ :=
    tangent_run_one A ext env tyenv hst hn hE ⟨tm, gu, me, tl, none⟩ tm rfl fun _ _ => rfl
  dsimp only at hrun hD hx hf
  have hfs : ∀ u < env.tOffset, f u = s.tmps u :=
    fun u hu => (hf u (by omega)).trans (hA.value u hu)
  rw [execStmts_append, hrun]
  simp only [execStmts, execStmt, forwardStep]
  refine ⟨fun u hu => ?_, fun u hu => ?_, hA.guest, hA.mem, hA.tool, hs0.symm⟩
  · dsimp only
    rw [update_update_of_lt _ hu, update_update_of_lt _ hu]
    split_ifs
    · rw [← hA.eval_eq _ he, ← hx e he]
      exact eval_update_of_le _ ⟨f, gu, me, tl, none⟩ (Nat.le_add_left _ t) _ e he.tmpsBelow
    · exact hfs u hu
  · dsimp only
    rw [update_update_shadow _ ht, update_update_shadow _ ht]
    split_ifs
    · rw [hD, hA.tangent_eq _ _ e he]; rfl
    · rw [hf (u + env.tOffset) (by omega)]; exact hA.shadow u hu

/-- The fold of `nl_instrument` over statements of the fragment never fails, and the
statements it appends take a state that agrees with a forward-mode state to one that agrees
with the forward-mode run. -/
theorem foldlM_instrumentStmt_forward (tyIn : List IRType) :
    ∀ (sts : List IRStmt) (sb : IRSB), 2 * env.tOffset ≤ sb.tyenv.length →
      (∀ st ∈ sts, st.forward env) →
      ∃ sb' out, sts.foldlM (fun sb st => (instrumentStmt env tyIn sb st).map
          fun sb => addStmtToIRSB sb st) sb = some sb' ∧ sb'.stmts = sb.stmts ++ out ∧
        ∀ (tyenv : List IRType) (s s' : State (Val K) ShadowMap), s.exit = none →
          DualAgree env s s' → DualAgree env (forwardRun (exactInterp A ext) A.sqrt env s sts)
            (execStmts (exactInterp A ext) (nlToolCall (exactInterp A ext)) tyenv s' out)
  | [], sb, _, _ => ⟨sb, [], rfl, by simp, fun _ _ _ _ hA => hA⟩
  | st :: sts, sb, hn, hf => by
    have hf' : ∀ st ∈ sts, st.forward env := fun st h => hf st (List.mem_cons_of_mem _ h)
    have hst := hf st (List.mem_cons_self _ _)
    rw [List.foldlM_cons]
    by_cases hm : st = .noOp ∨ st = .imark ∨ st = .abiHint
    · -- a marker: no instrumentation, and no effect in either run
      have hnop : instrumentStmt env tyIn sb st = some sb ∧
          (∀ tyenv (s : State (Val K) ShadowMap),
            execStmt (exactInterp A ext) (nlToolCall (exactInterp A ext)) tyenv s st = s) ∧
          ∀ s : State (Val K) ShadowMap, forwardStep (exactInterp A ext) A.sqrt env s st = s := by
        rcases hm with rfl | rfl | rfl <;> exact ⟨rfl, fun _ _ => rfl, fun _ => rfl⟩
      obtain ⟨sb', out, hfold, hout, hrun⟩ :=
        foldlM_instrumentStmt_forward tyIn sts (addStmtToIRSB sb st) hn hf'
      refine ⟨sb', st :: out, by rw [hnop.1]; exact hfold, by simp [hout, addStmtToIRSB],
        fun tyenv s s' hs0 hA => ?_⟩
      rw [execStmts_cons_of_running _ _ _ (hA.exit.trans hs0), hnop.2.1, forwardRun_cons,
        hnop.2.2]
      exact hrun tyenv s s' hs0 hA
    cases st with
    | wrTmp t e =>
      obtain ⟨ht, he, hdiff⟩ := hst
      obtain ⟨d, hd⟩ := IRExpr.differentiates.exists env hdiff sb
      obtain ⟨-, ⟨hs, hsts, -⟩, -⟩ := differentiateExpr_grows env sb e
      have hL := (differentiateExpr_grows env sb e).length_le
      obtain ⟨sb', out, hfold, hout, hrun⟩ := foldlM_instrumentStmt_forward tyIn sts
        (addStmtToIRSB (addStmtToIRSB (differentiateExpr env e sb).2
          (.wrTmp (t + env.tOffset) d)) (.wrTmp t e)) (hn.trans hL) hf'
      refine ⟨sb', hs ++ [.wrTmp (t + env.tOffset) d, .wrTmp t e] ++ out, ?_, ?_,
        fun tyenv s s' hs0 hA => ?_⟩
      · simp only [instrumentStmt, differentiateOrWarn_of_differentiates env hdiff, hd,
          Option.map_some']
        exact hfold
      · simp [hout, addStmtToIRSB, hsts]
      · rw [execStmts_append]
        exact hrun tyenv _ _ (by rw [forwardStep_exit, hs0])
          (forwardStep_wrTmp A ext env tyenv ht he hd hn hsts hs0 hA)
    | noOp | imark | abiHint => simp at hm
    | put | putI | store | storeG | loadG | cas | llsc | dirty | mbe | exit => exact hst.elim

end Run

section Block
variable (A : ExactArith K) (ext : Interp (Val K))

/-- **`nl_instrument` implements forward mode on blocks of temporaries.** For a block that
starts with an `IMark` and otherwise assigns original temporaries from original expressions
(no `F32` load among them, whose conversion VEX rejects) that `differentiate_expr`
differentiates, `nl_instrument` succeeds without crashing, and from every running state
the instrumented block ends in a state that agrees with the forward-mode run of the original
block: each original temporary holds its value, its shadow the number that is its tangent
under exact arithmetic, and guest state, memory and shadow map are those of the forward-mode
run. -/
theorem nlInstrument_forward {totalSizeB : Nat} {sbIn : IRSB}
    (hfst : sbIn.stmts.head? = some .imark)
    (hfwd : ∀ st ∈ sbIn.stmts, st.forward ⟨sbIn.tyenv.length, totalSizeB⟩) :
    ∃ sbOut, nlInstrument totalSizeB sbIn = some sbOut ∧
      ∀ s : State (Val K) ShadowMap, s.exit = none →
        DualAgree ⟨sbIn.tyenv.length, totalSizeB⟩
          (forwardRun (exactInterp A ext) A.sqrt ⟨sbIn.tyenv.length, totalSizeB⟩ s sbIn.stmts)
          (execStmts (exactInterp A ext) (nlToolCall (exactInterp A ext)) sbOut.tyenv s
            sbOut.stmts) := by
  obtain ⟨rest, hrest⟩ := List.head?_eq_some_iff.mp hfst
  obtain ⟨sbOut, out, hfold, hout, hrun⟩ :=
    foldlM_instrumentStmt_forward A ext ⟨sbIn.tyenv.length, totalSizeB⟩ sbIn.tyenv sbIn.stmts
      ⟨sbIn.tyenv ++ sbIn.tyenv, [], sbIn.next⟩ (by simp; omega) hfwd
  refine ⟨sbOut, ?_, fun s hs0 => ?_⟩
  · simpa [nlInstrument, hrest, IRStmt.isIMark] using hfold
  · simpa [hout] using hrun sbOut.tyenv s s hs0 (DualAgree.refl s)

/-- `IMark; t0 = GET:F64(0); t1 = MulF64(t0, t0)` on a 16-byte guest state: the
instrumented block holds in `t3` the tangent `2 * t0 * t2` of the square. -/
theorem nlInstrument_forward_square :
    ∃ sbOut, nlInstrument 16 ⟨[.f64, .f64], [.imark, .wrTmp 0 (.get 0 .f64),
        .wrTmp 1 (.triop (.mul .f64) (.const (.u32 0)) (.rdTmp 0) (.rdTmp 0))], .rdTmp 1⟩ =
        some sbOut ∧
      ∀ s : State (Val ℚ) ShadowMap, s.exit = none →
        DualAgree ⟨2, 16⟩
          (forwardRun (exactInterp ExactArith.rat Interp.inert) ExactArith.rat.sqrt ⟨2, 16⟩ s
            [.imark, .wrTmp 0 (.get 0 .f64),
              .wrTmp 1 (.triop (.mul .f64) (.const (.u32 0)) (.rdTmp 0) (.rdTmp 0))])
          (execStmts (exactInterp ExactArith.rat Interp.inert)
            (nlToolCall (exactInterp ExactArith.rat Interp.inert)) sbOut.tyenv s sbOut.stmts) :=
  nlInstrument_forward ExactArith.rat Interp.inert rfl (by decide)

end Block

end Derivgrind
