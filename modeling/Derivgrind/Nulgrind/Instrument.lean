import Derivgrind.Nulgrind.ShadowMemory

/-!
# Derivgrind.Nulgrind.Instrument

The forward-mode instrumentation of `nl_main.c`: `differentiate_expr`, which turns an
expression into the expression of its tangent (or `NULL`, here `none`), and
`nl_instrument`, which walks a superblock and puts the instrumentation of each statement in
front of a copy of it.

`differentiate_expr` may append helper statements to the output block (loads from shadow
memory), so it takes the output block and returns it with its result; it keeps those
statements even when it ends up returning `none`. An assertion failure of `nl_instrument`
(a guarded load into a float temporary with an unexpected widening) makes the whole result
`none`, and so does a crash: the `Iex_ITE` case prints both branch tangents with `ppIRExpr`
before it checks them for `NULL`, so a branch without a tangent crashes the tool
(`IRExpr.ppNull`, `differentiateOrWarn`). The assertions the code can never reach are left
out.
-/

namespace Derivgrind

/-- `DiffEnv`: the shadow offset of temporaries (`t_offset`) and of guest registers
(`layout->total_sizeB`). The output block `sb_out` is threaded explicitly. -/
structure DiffEnv where
  tOffset : Nat
  totalSizeB : Nat

/-- `convertToInteger`: reinterpret a value as an 8-byte integer. Callers check
`canConvertToI64`; the code asserts on every other type. -/
def convertToInteger (expr : IRExpr) : IRType → IRExpr
  | .f32 => .unop (.zext .i32 .i64) (.unop (.reinterp .f32 .i32) expr)
  | .f64 => .unop (.reinterp .f64 .i64) expr
  | .i8 => .unop (.zext .i8 .i64) expr
  | .i16 => .unop (.zext .i16 .i64) expr
  | .i32 => .unop (.zext .i32 .i64) expr
  | _ => expr

/-- `convertFromInteger`: reinterpret an 8-byte integer as a value of the given type. For
`Ity_F32` the code applies `Iop_ReinterpI32asF32` to the 8-byte integer itself. -/
def convertFromInteger (expr : IRExpr) : IRType → IRExpr
  | .f32 => .unop (.reinterp .i32 .f32) expr
  | .f64 => .unop (.reinterp .i64 .f64) expr
  | .i8 => .unop (.lo .i64 .i8) expr
  | .i16 => .unop (.lo .i64 .i16) expr
  | .i32 => .unop (.lo .i64 .i32) expr
  | _ => expr

/-- The zero constant of the same kind, as the `Iex_Const` case builds it. -/
def IRConst.zero : IRConst → IRConst
  | .u1 _ => .u1 false
  | .u8 _ => .u8 0
  | .u16 _ => .u16 0
  | .u32 _ => .u32 0
  | .u64 _ => .u64 0
  | .u128 _ => .u128 0
  | .f32 _ => .f32 0
  | .f32i _ => .f32i 0
  | .f64 _ => .f64 0
  | .f64i _ => .f64i 0
  | .v128 _ => .v128 0
  | .v256 _ => .v256 0

/-- The scalar shapes `F64` and `F32`, the only ones `nl_main.c` differentiates. -/
def FShape.isScalar : FShape → Bool
  | .f64 | .f32 => true
  | _ => false

/-- The literal `2.0` of a scalar shape (`IRConst_F64(2.0)`, `IRConst_F32(2.0)`). -/
def FShape.two : FShape → IRConst
  | .f32 => .f32 2
  | _ => .f64 2

/-- The literal `0.` of a scalar shape. -/
def FShape.zeroConst : FShape → IRConst
  | .f32 => .f32 0
  | _ => .f64 0

/-- The `Iex_Triop` rules: sum, difference, product and quotient rule, reusing the
rounding mode `arg1`. -/
def triopDerivative (arg1 arg2 arg3 d2 d3 : IRExpr) : IROp → Option IRExpr
  | .add s => if s.isScalar then some (.triop (.add s) arg1 d2 d3) else none
  | .sub s => if s.isScalar then some (.triop (.sub s) arg1 d2 d3) else none
  | .mul s =>
    if s.isScalar then
      some (.triop (.add s) arg1 (.triop (.mul s) arg1 d2 arg3) (.triop (.mul s) arg1 d3 arg2))
    else none
  | .div s =>
    if s.isScalar then
      some (.triop (.div s) arg1
        (.triop (.sub s) arg1 (.triop (.mul s) arg1 d2 arg3) (.triop (.mul s) arg1 d3 arg2))
        (.triop (.mul s) arg1 arg3 arg3))
    else none
  | _ => none

/-- The `Iex_Binop` rule: `d / (2 * sqrt x)` for `Iop_SqrtF64` and `Iop_SqrtF32`. -/
def binopDerivative (arg1 arg2 d2 : IRExpr) : IROp → Option IRExpr
  | .sqrt s =>
    if s.isScalar then
      some (.triop (.div s) arg1 d2
        (.triop (.mul s) arg1 (.const s.two) (.binop (.sqrt s) arg1 arg2)))
    else none
  | _ => none

/-- The `Iex_Unop` rules: negation, and for the absolute value a select on
`32to1(CmpF(arg, 0.))`, which is `1` exactly when `arg < 0`. -/
def unopDerivative (arg d : IRExpr) : IROp → Option IRExpr
  | .neg s => if s.isScalar then some (.unop (.neg s) d) else none
  | .abs s =>
    if s.isScalar then
      some (.ite (.unop (.lo .i32 .i1) (.binop (.cmp s) arg (.const s.zeroConst)))
        (.unop (.neg s) d) d)
    else none
  | _ => none

/-- The dirty call `nl_Load_diffN(addr)` into temporary `tmp`. -/
def loadDiffDirty (ty : IRType) (addr : IRExpr) (tmp : Nat) : IRDirty :=
  { cee := .nlLoadDiff (sizeofIRType ty), guard := .const (.u1 true), args := [addr],
    tmp := some tmp }

/-- `differentiate_expr`. -/
def differentiateExpr (env : DiffEnv) : IRExpr → IRSB → Option IRExpr × IRSB
  | .triop op arg1 arg2 arg3, sb =>
    let r2 := differentiateExpr env arg2 sb
    let r3 := differentiateExpr env arg3 r2.2
    match r2.1, r3.1 with
    | some d2, some d3 => (triopDerivative arg1 arg2 arg3 d2 d3 op, r3.2)
    | _, _ => (none, r3.2)
  | .binop op arg1 arg2, sb =>
    let r2 := differentiateExpr env arg2 sb
    match r2.1 with
    | some d2 => (binopDerivative arg1 arg2 d2 op, r2.2)
    | none => (none, r2.2)
  | .unop op arg, sb =>
    let r := differentiateExpr env arg sb
    match r.1 with
    | some d => (unopDerivative arg d op, r.2)
    | none => (none, r.2)
  | .const c, sb => (some (.const c.zero), sb)
  | .ite cond iftrue iffalse, sb =>
    let rt := differentiateExpr env iftrue sb
    let rf := differentiateExpr env iffalse rt.2
    match rt.1, rf.1 with
    | some dt, some df => (some (.ite cond dt df), rf.2)
    | _, _ => (none, rf.2)
  | .rdTmp t, sb => (some (.rdTmp (t + env.tOffset)), sb)
  | .get off ty, sb => (some (.get (off + env.totalSizeB) ty), sb)
  | .getI descr ix bias, sb =>
    (some (.getI { descr with base := descr.base + env.totalSizeB } ix
      (bias + env.totalSizeB)), sb)
  | .load ty addr, sb =>
    if canConvertToI64 ty then
      let (loadAddr, sb) := newIRTemp sb .i64
      let sb := addStmtToIRSB sb (.dirty (loadDiffDirty ty addr loadAddr))
      let (r, sb) := newIRTemp sb ty
      let sb := addStmtToIRSB sb (.wrTmp r (convertFromInteger (.rdTmp loadAddr) ty))
      (some (.rdTmp r), sb)
    else (none, sb)
  | _, sb => (none, sb)

/-! ### How `differentiate_expr` threads the output block -/

section Equations

variable (env : DiffEnv) (sb : IRSB)

theorem differentiateExpr_triop (op : IROp) (a₁ a₂ a₃ : IRExpr) :
    differentiateExpr env (.triop op a₁ a₂ a₃) sb =
      ((differentiateExpr env a₂ sb).1.bind fun d₂ =>
        (differentiateExpr env a₃ (differentiateExpr env a₂ sb).2).1.bind fun d₃ =>
          triopDerivative a₁ a₂ a₃ d₂ d₃ op,
        (differentiateExpr env a₃ (differentiateExpr env a₂ sb).2).2) := by
  rcases h₂ : (differentiateExpr env a₂ sb).1 with _ | d₂ <;>
    rcases h₃ : (differentiateExpr env a₃ (differentiateExpr env a₂ sb).2).1 with _ | d₃ <;>
    simp [differentiateExpr, h₂, h₃]

theorem differentiateExpr_binop (op : IROp) (a₁ a₂ : IRExpr) :
    differentiateExpr env (.binop op a₁ a₂) sb =
      ((differentiateExpr env a₂ sb).1.bind fun d₂ => binopDerivative a₁ a₂ d₂ op,
        (differentiateExpr env a₂ sb).2) := by
  simp only [differentiateExpr]
  split <;> simp_all

theorem differentiateExpr_unop (op : IROp) (a : IRExpr) :
    differentiateExpr env (.unop op a) sb =
      ((differentiateExpr env a sb).1.bind fun d => unopDerivative a d op,
        (differentiateExpr env a sb).2) := by
  simp only [differentiateExpr]
  split <;> simp_all

theorem differentiateExpr_ite (c a b : IRExpr) :
    differentiateExpr env (.ite c a b) sb =
      ((differentiateExpr env a sb).1.bind fun dt =>
        (differentiateExpr env b (differentiateExpr env a sb).2).1.map fun df => .ite c dt df,
        (differentiateExpr env b (differentiateExpr env a sb).2).2) := by
  rcases ht : (differentiateExpr env a sb).1 with _ | dt <;>
    rcases hf : (differentiateExpr env b (differentiateExpr env a sb).2).1 with _ | df <;>
    simp [differentiateExpr, ht, hf]

/-- The `Iex_Load` case: two fresh temporaries, the call `nl_Load_diffN(addr)` into the
first and its conversion to `ty` into the second, which is the tangent. -/
theorem differentiateExpr_load {ty : IRType} (h : canConvertToI64 ty = true) (addr : IRExpr) :
    differentiateExpr env (.load ty addr) sb =
      (some (.rdTmp (sb.tyenv.length + 1)),
        { tyenv := sb.tyenv ++ [.i64, ty],
          stmts := sb.stmts ++ [.dirty (loadDiffDirty ty addr sb.tyenv.length),
            .wrTmp (sb.tyenv.length + 1) (convertFromInteger (.rdTmp sb.tyenv.length) ty)],
          next := sb.next }) := by
  simp [differentiateExpr, h, newIRTemp, addStmtToIRSB]

end Equations

/-! ### Whether `differentiate_expr` returns an expression, and where it crashes -/

section Succeeds
variable (env : DiffEnv)

theorem unopDerivative_isSome (a d d' : IRExpr) (op : IROp) :
    (unopDerivative a d op).isSome = (unopDerivative a d' op).isSome := by
  cases op <;> simp only [unopDerivative]; all_goals split_ifs <;> rfl

theorem binopDerivative_isSome (a₁ a₂ d d' : IRExpr) (op : IROp) :
    (binopDerivative a₁ a₂ d op).isSome = (binopDerivative a₁ a₂ d' op).isSome := by
  cases op <;> simp only [binopDerivative]; split_ifs <;> rfl

theorem triopDerivative_isSome (a₁ a₂ a₃ d₂ d₃ d₂' d₃' : IRExpr) (op : IROp) :
    (triopDerivative a₁ a₂ a₃ d₂ d₃ op).isSome =
      (triopDerivative a₁ a₂ a₃ d₂' d₃' op).isSome := by
  cases op <;> simp only [triopDerivative]; all_goals split_ifs <;> rfl

theorem Option.bind_isSome_congr {α β : Type} {x y : Option α} {f g : α → Option β}
    (hxy : x.isSome = y.isSome) (hfg : ∀ a b, (f a).isSome = (g b).isSome) :
    (x.bind f).isSome = (y.bind g).isSome := by
  cases x <;> cases y <;> first | rfl | exact hfg _ _ | cases hxy

/-- Whether `differentiate_expr` returns an expression depends on the expression only, not
on the block it appends its helpers to. -/
theorem differentiateExpr_isSome (e : IRExpr) (sb sb' : IRSB) :
    (differentiateExpr env e sb).1.isSome = (differentiateExpr env e sb').1.isSome := by
  induction e generalizing sb sb' with
  | load ty a _ => by_cases h : canConvertToI64 ty <;> simp [differentiateExpr, h]
  | unop op a ih =>
    simp only [differentiateExpr_unop]
    exact Option.bind_isSome_congr (ih sb sb') fun d d' => unopDerivative_isSome a d d' op
  | binop op a₁ a₂ _ ih₂ =>
    simp only [differentiateExpr_binop]
    exact Option.bind_isSome_congr (ih₂ sb sb') fun d d' => binopDerivative_isSome a₁ a₂ d d' op
  | triop op a₁ a₂ a₃ _ ih₂ ih₃ =>
    simp only [differentiateExpr_triop]
    exact Option.bind_isSome_congr (ih₂ sb sb') fun d₂ d₂' =>
      Option.bind_isSome_congr (ih₃ _ _) fun d₃ d₃' =>
        triopDerivative_isSome a₁ a₂ a₃ d₂ d₃ d₂' d₃' op
  | ite c a b _ iha ihb =>
    simp only [differentiateExpr_ite]
    exact Option.bind_isSome_congr (iha sb sb') fun _ _ => by
      simp only [Option.isSome_map']; exact ihb _ _
  | _ => rfl

/-- `differentiate_expr` returns an expression for `e` (into any block, by
`differentiateExpr_isSome`). -/
def IRExpr.differentiates (e : IRExpr) : Bool :=
  (differentiateExpr env e ⟨[], [], .const (.u64 0)⟩).1.isSome

theorem IRExpr.differentiates_eq (e : IRExpr) (sb : IRSB) :
    e.differentiates env = (differentiateExpr env e sb).1.isSome :=
  differentiateExpr_isSome env e _ sb

theorem IRExpr.differentiates.exists {e : IRExpr} (h : e.differentiates env) (sb : IRSB) :
    ∃ d, (differentiateExpr env e sb).1 = some d :=
  Option.isSome_iff_exists.mp ((e.differentiates_eq env sb).symm.trans h)

/-- Whether `differentiate_expr` crashes on `e`: it reaches an `Iex_ITE` one of whose branches
has no tangent, and prints that `NULL` tangent with `ppIRExpr`, which dereferences it. The
recursion follows the calls `differentiate_expr` makes: the last two arguments of a `Triop`,
the last one of a `Binop`, the argument of a `Unop` and both branches of an `ITE`, each
whether or not an earlier one had a tangent. -/
def IRExpr.ppNull : IRExpr → Bool
  | .triop _ _ a₂ a₃ => a₂.ppNull || a₃.ppNull
  | .binop _ _ a₂ => a₂.ppNull
  | .unop _ a => a.ppNull
  | .ite _ a b => a.ppNull || b.ppNull || !a.differentiates env || !b.differentiates env
  | _ => false

/-- An expression `differentiate_expr` returns a tangent for does not crash it. -/
theorem IRExpr.ppNull_eq_false {e : IRExpr} (h : e.differentiates env) : e.ppNull env = false := by
  have hsome : ∀ {x : Option IRExpr} {f : IRExpr → Option IRExpr}, (x.bind f).isSome → x.isSome :=
    fun {x} _ h => by cases x <;> simp_all
  induction e with
  | triop op a₁ a₂ a₃ _ ih₂ ih₃ =>
    rw [IRExpr.differentiates, differentiateExpr_triop] at h
    have h₂ : a₂.differentiates env := hsome h
    obtain ⟨d₂, hd₂⟩ := Option.isSome_iff_exists.mp h₂
    rw [hd₂, Option.some_bind] at h
    simp only [IRExpr.ppNull, ih₂ h₂, ih₃ ((a₃.differentiates_eq env _).trans (hsome h)),
      Bool.or_false]
  | binop op a₁ a₂ _ ih₂ =>
    rw [IRExpr.differentiates, differentiateExpr_binop] at h
    exact ih₂ (hsome h)
  | unop op a ih =>
    rw [IRExpr.differentiates, differentiateExpr_unop] at h
    exact ih (hsome h)
  | ite c a b _ iha ihb =>
    rw [IRExpr.differentiates, differentiateExpr_ite] at h
    have ha : a.differentiates env := hsome h
    obtain ⟨da, hda⟩ := Option.isSome_iff_exists.mp ha
    rw [hda, Option.some_bind, Option.isSome_map'] at h
    have hb : b.differentiates env := (b.differentiates_eq env _).trans h
    simp only [IRExpr.ppNull, iha ha, ihb hb, ha, hb, Bool.not_true, Bool.or_false]
  | _ => rfl

/-- `differentiate_or_warn`: the result of `differentiate_expr`, or `none` when it crashes. The
warning it prints for a `NULL` result is left out. -/
def differentiateOrWarn (expr : IRExpr) (sb : IRSB) : Option (Option IRExpr × IRSB) :=
  if expr.ppNull env then none else some (differentiateExpr env expr sb)

theorem differentiateOrWarn_eq_some {expr : IRExpr} {sb : IRSB} {r : Option IRExpr × IRSB}
    (h : differentiateOrWarn env expr sb = some r) : r = differentiateExpr env expr sb := by
  unfold differentiateOrWarn at h
  split_ifs at h
  exact (Option.some.inj h).symm

theorem differentiateOrWarn_of_differentiates {expr : IRExpr} (h : expr.differentiates env)
    (sb : IRSB) : differentiateOrWarn env expr sb = some (differentiateExpr env expr sb) := by
  simp [differentiateOrWarn, IRExpr.ppNull_eq_false env h]

end Succeeds

/-- Whether a statement is an `Ist_IMark`. -/
def IRStmt.isIMark : IRStmt → Bool
  | .imark => true
  | _ => false

/-- The dirty call `nl_Store_diffN(addr, convertToInteger(d))` under `guard`. -/
def storeDiffDirty (ty : IRType) (addr d guard : IRExpr) : IRDirty :=
  { cee := .nlStoreDiff (sizeofIRType ty), guard := guard,
    args := [addr, convertToInteger d ty], tmp := none }

/-- The `Ist_Store`/`Ist_StoreG` case; an unguarded store keeps the default guard. -/
def instrumentStore (env : DiffEnv) (tyenv : List IRType) (sb : IRSB)
    (addr data guard : IRExpr) : Option IRSB :=
  let ty := data.type tyenv
  if canConvertToI64 ty then
    (differentiateOrWarn env data sb).map fun r =>
      match r.1 with
      | some d => addStmtToIRSB r.2 (.dirty (storeDiffDirty ty addr d guard))
      | none => r.2
  else some sb

/-- The `Ist_LoadG` case past its assertions, given the result of `differentiate_or_warn` on
`alt`: load the tangent from shadow memory and select it or the tangent of `alt` by the
guard. -/
def instrumentLoadGWith (env : DiffEnv) (ty : IRType) (dst : Nat) (addr guard : IRExpr)
    (r : Option IRExpr × IRSB) : IRSB :=
  match r.1 with
  | some dAlt =>
    let (loadAddr, sb) := newIRTemp r.2 .i64
    let sb := addStmtToIRSB sb (.dirty (loadDiffDirty ty addr loadAddr))
    let (h, sb) := newIRTemp sb ty
    let sb := addStmtToIRSB sb (.wrTmp h (convertFromInteger (.rdTmp loadAddr) ty))
    addStmtToIRSB sb (.wrTmp (dst + env.tOffset) (.ite guard (.rdTmp h) dAlt))
  | none => r.2

/-- The `Ist_LoadG` case past its assertions. -/
def instrumentLoadG (env : DiffEnv) (ty : IRType) (dst : Nat) (addr alt guard : IRExpr)
    (sb : IRSB) : Option IRSB :=
  (differentiateOrWarn env alt sb).map (instrumentLoadGWith env ty dst addr guard)

/-- The `Ist_LoadG` case: the helpers of `alt`'s tangent, those of a shadow load, and the
select. -/
theorem instrumentLoadGWith_eq (env : DiffEnv) (ty : IRType) (dst : Nat) (addr guard : IRExpr)
    (r : Option IRExpr × IRSB) :
    instrumentLoadGWith env ty dst addr guard r =
      (r.1.elim r.2 fun dAlt =>
        addStmtToIRSB
          { tyenv := r.2.tyenv ++ [.i64, ty],
            stmts := r.2.stmts ++ [.dirty (loadDiffDirty ty addr r.2.tyenv.length),
              .wrTmp (r.2.tyenv.length + 1) (convertFromInteger (.rdTmp r.2.tyenv.length) ty)],
            next := r.2.next }
          (.wrTmp (dst + env.tOffset) (.ite guard (.rdTmp (r.2.tyenv.length + 1)) dAlt))) := by
  simp only [instrumentLoadGWith]
  split <;> simp_all [newIRTemp, addStmtToIRSB]

/-- The instrumentation `nl_instrument` emits in front of one statement, `tyenv` being the
input block's types; `none` when an assertion fails or `differentiate_expr` crashes. -/
def instrumentStmt (env : DiffEnv) (tyenv : List IRType) (sb : IRSB) : IRStmt → Option IRSB
  | .wrTmp t data =>
    (differentiateOrWarn env data sb).map fun r =>
      match r.1 with
      | some d => addStmtToIRSB r.2 (.wrTmp (t + env.tOffset) d)
      | none => r.2
  | .put off data =>
    (differentiateOrWarn env data sb).map fun r =>
      match r.1 with
      | some d => addStmtToIRSB r.2 (.put (off + env.totalSizeB) d)
      | none => r.2
  | .putI descr ix bias data =>
    (differentiateOrWarn env data sb).map fun r =>
      match r.1 with
      | some d => addStmtToIRSB r.2
          (.putI { descr with base := descr.base + env.totalSizeB } ix (bias + env.totalSizeB) d)
      | none => r.2
  | .store addr data => instrumentStore env tyenv sb addr data (.const (.u1 true))
  | .storeG addr data guard => instrumentStore env tyenv sb addr data guard
  | .loadG cvt dst addr alt guard =>
    let ty := tyenv.getD dst .i64
    if canConvertToI64 ty then
      if (ty = .f64 ∧ cvt ≠ .ident64) ∨ (ty = .f32 ∧ cvt ≠ .ident32) then none
      else instrumentLoadG env ty dst addr alt guard sb
    else some sb
  | .cas c =>
    let sb := addStmtToIRSB sb (.wrTmp (c.oldLo + env.tOffset) (.const (.f64 0)))
    some (match c.oldHi with
      | some hi => addStmtToIRSB sb (.wrTmp (hi + env.tOffset) (.const (.f64 0)))
      | none => sb)
  | _ => some sb

/-- `nl_instrument`: double the temporaries, copy the statements before the first `IMark`,
then for each later statement emit its instrumentation and the statement itself. -/
def nlInstrument (totalSizeB : Nat) (sbIn : IRSB) : Option IRSB :=
  let env : DiffEnv := ⟨sbIn.tyenv.length, totalSizeB⟩
  let sbOut : IRSB :=
    { tyenv := sbIn.tyenv ++ sbIn.tyenv,
      stmts := sbIn.stmts.takeWhile fun st => !st.isIMark,
      next := sbIn.next }
  (sbIn.stmts.dropWhile fun st => !st.isIMark).foldlM
    (fun sb st => (instrumentStmt env sbIn.tyenv sb st).map fun sb => addStmtToIRSB sb st) sbOut

variable {V : Type}

/-- What the `nl_*` dirty helpers do when the instrumented code runs. `nl_Store_diff`
takes the 8-byte integer's bytes; `nl_Load_diff` returns its `ULong` as one. -/
def nlToolCall (I : Interp V) : ToolCall V ShadowMap
  | .nlStoreDiff n, [addr, derivative], sm =>
    (I.const (.u64 0), nlStoreDiff sm (I.toAddr addr) (ULong.ofList (I.encode .i64 derivative)) n)
  | .nlLoadDiff n, [addr], sm => (I.decode .i64 (nlLoadDiff sm (I.toAddr addr) n).toList, sm)
  | _, _, sm => (I.const (.u64 0), sm)

end Derivgrind
