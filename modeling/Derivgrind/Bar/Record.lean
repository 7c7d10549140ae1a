import Derivgrind.IR.Lanes
import Derivgrind.Nulgrind.Instrument

/-!
# Derivgrind.Bar.Record

The derivative rules of `record_expr` (`dg_bar.c`): for an operator node with arguments
`arg1`, `arg2`, ... and tangent expressions `d1`, `d2`, ... of those arguments, the
expression of the node's tangent. `record_expr` is a draft whose recursion does not type
check (its triop case reads `d2` and `d3`, which it never defines, and its other cases call
`differentiate_expr` for an `IRExpr8`), so its recursion is left out and the rules are
modelled as the functions of the argument and tangent expressions they are:
`recordExprTriop`, `recordExprBinop` and `recordExprUnop`, one `switch` each, and
`recordExprGetI` for its `Iex_GetI` case.

Under real lanes (`Derivgrind.IR.Lanes`) the rules are checked against calculus: the value of
the emitted expression is, lane by lane, the derivative of the operator along the line
through its operands in the directions of their tangents (`TriopRuleTangent` and its
siblings), wherever the operator has one. The exceptions are the rules that multiply or
divide by `ln 2`: they use the literal `0.6931471805599453094172321214581`, which as a
double (`ln2Double`) is not `ln 2`, so their value is the tangent with `ln 2` replaced by that
double (`recordExpr_tangents`).
-/

namespace Derivgrind

/-- `IRConst_F64(0.6931471805599453094172321214581)`: the double the literal rounds to,
`0x3FE62E42FEFA39EF`. -/
def ln2Double : ℚ := 6243314768165359 / 9007199254740992

/-- The bit pattern `0x3FE62E42FEFA39EF` stands for `ln2Double`. -/
example : ieeeValue 11 52 0x3FE62E42FEFA39EF = ln2Double := by
  norm_num [ieeeValue, ln2Double]

/-! ## The rules -/

/-- `dg_logical_<op>64(a1, b1, a2, b2)`, the helper call `DG_HANDLE_LOGICAL` builds. -/
def logicalCall (name : String) (a1 b1 a2 b2 : IRExpr) : IRExpr :=
  .ccall name .i64 4 ![a1, b1, a2, b2]

/-- `DG_HANDLE_LOGICAL(Op, op)` on operands of type `ty`: 32 bits zero-extended to 64 and the
result's low half, 64 bits as they are, 128 and 256 bits 64 at a time. -/
def dgHandleLogical (name : String) (arg1 arg2 d1 d2 : IRExpr) : IRType → Option IRExpr
  | .i32 =>
    let to64 := fun e => IRExpr.binop (.hlTo .i32 .i64) (.const (.u32 0)) e
    some (.unop (.lo .i64 .i32) (logicalCall name (to64 arg1) (to64 d1) (to64 arg2) (to64 d2)))
  | .i64 => some (logicalCall name arg1 d1 arg2 d2)
  | .v128 =>
    let part := fun sel : IROp =>
      logicalCall name (.unop sel arg1) (.unop sel d1) (.unop sel arg2) (.unop sel d2)
    some (.binop (.hlTo .i64 .v128) (part (.hi .v128 .i64)) (part (.lo .v128 .i64)))
  | .v256 =>
    let part := fun k : Fin 4 =>
      logicalCall name (.unop (.v256to64 k) arg1) (.unop (.v256to64 k) d1)
        (.unop (.v256to64 k) arg2) (.unop (.v256to64 k) d2)
    some (.qop .v64x4toV256 (part 3) (part 2) (part 1) (part 0))
  | _ => none

/-- `IRExpr_Unop(Iop_ReinterpF64asI64, IRExpr_Const(IRConst_F64(2.)))`. -/
def twoI64 : IRExpr := .unop (.reinterp .f64 .i64) (.const (.f64 2))

/-- Two `IRConst_F32(2.)` side by side in 64 bits (`consttwo_32x2`). -/
def twoI32x2 : IRExpr :=
  .binop (.hlTo .i32 .i64) (.unop (.reinterp .f32 .i32) (.const (.f32 2)))
    (.unop (.reinterp .f32 .i32) (.const (.f32 2)))

/-- The `consttwo` of the square-root rules: `2.` in every lane of the shape. -/
def FShape.consttwo : FShape → IRExpr
  | .f64 => .const (.f64 2)
  | .f32 => .const (.f32 2)
  | .v64Fx2 | .v64F0x2 => .binop (.hlTo .i64 .v128) twoI64 twoI64
  | .v64Fx4 => .qop .v64x4toV256 twoI64 twoI64 twoI64 twoI64
  | .v32Fx4 | .v32F0x4 => .binop (.hlTo .i64 .v128) twoI32x2 twoI32x2
  | .v32Fx8 => .qop .v64x4toV256 twoI32x2 twoI32x2 twoI32x2 twoI32x2
  | .v32Fx2 => twoI32x2

/-- The shapes `DERIVATIVE_OF_BINOP_SQRT` is instantiated for. -/
def FShape.hasSqrtBinop : FShape → Bool
  | .f64 | .f32 | .v64Fx2 | .v64Fx4 | .v32Fx4 | .v32Fx8 => true
  | _ => false

/-- `DERIVATIVE_OF_BINOP_SQRT(suffix, consttwo)`: `d2 / (consttwo * sqrt arg2)`. -/
def derivativeOfBinopSqrt (s : FShape) (arg1 arg2 d2 : IRExpr) : IRExpr :=
  .triop (.div s) arg1 d2 (.triop (.mul s) arg1 s.consttwo (.binop (.sqrt s) arg1 arg2))

/-- `Iop_Mul64F0x2`, `Iop_Mul32F0x4`: `d1 * arg2 + arg1 * d2`, `d1` first so that the upper
lanes are those of `d1`. -/
def lowestMulDerivative (s : FShape) (arg1 arg2 d1 d2 : IRExpr) : IRExpr :=
  .binop (.add s) (.binop (.mul s) d1 arg2) (.binop (.mul s) arg1 d2)

/-- `Iop_Div64F0x2`, `Iop_Div32F0x4`: `(d1 * arg2 - arg1 * d2) / (arg2 * arg2)`. -/
def lowestDivDerivative (s : FShape) (arg1 arg2 d1 d2 : IRExpr) : IRExpr :=
  .binop (.div s) (.binop (.sub s) (.binop (.mul s) d1 arg2) (.binop (.mul s) arg1 d2))
    (.binop (.mul s) arg2 arg2)

/-- `Iop_Min64F0x2`: the high lane of `d1` over the low lane of `d1` or `d2`, chosen by
`32to1(CmpF64(arg1_lo, arg2_lo))`, which is `1` exactly when `arg1_lo < arg2_lo`. -/
def min64F0x2Derivative (arg1 arg2 d1 d2 : IRExpr) : IRExpr :=
  let lo := fun e => IRExpr.unop (.lo .v128 .i64) e
  let cond := IRExpr.binop (.cmp .f64) (.unop (.reinterp .i64 .f64) (lo arg1))
    (.unop (.reinterp .i64 .f64) (lo arg2))
  .binop (.hlTo .i64 .v128) (.unop (.hi .v128 .i64) d1) (.ite (.unop (.lo .i32 .i1) cond) (lo d1) (lo d2))

/-- `mkIRConst_zero(ty)` for the two types `record_expr` calls it with. The helper is not
among the sources; it is read from its name as the literal zero of the type. -/
def mkIRConstZero : IRType → IRExpr
  | .f32 => .const (.f32 0)
  | _ => .const (.f64 0)

/-- The binary operators `record_expr` applies to the tangents as to the values. -/
def IROp.isTransportBinop : IROp → Bool
  | .hlTo .i64 .i128 | .hlTo .i32 .i64 | .hlTo .i16 .i32 | .hlTo .i8 .i16
  | .hlTo .i64 .v128 | .hlTo .v128 .v256
  | .add .v64F0x2 | .sub .v64F0x2 | .add .v32F0x4 | .sub .v32F0x4
  | .setV128lo .i32 | .setV128lo .i64
  | .interleaveHI .i8 | .interleaveHI .i16 | .interleaveHI .i32 | .interleaveHI .i64
  | .interleaveLO .i8 | .interleaveLO .i16 | .interleaveLO .i32 | .interleaveLO .i64 => true
  | _ => false

/-- `record_expr`'s `Iex_Binop` rules; `d1` and `d2` are the tangents of `arg1` and `arg2`. -/
def recordExprBinop (arg1 arg2 d1 d2 : IRExpr) (op : IROp) : Option IRExpr :=
  match op with
  | .and ty => dgHandleLogical "dg_logical_and64" arg1 arg2 d1 d2 ty
  | .or ty => dgHandleLogical "dg_logical_or64" arg1 arg2 d1 d2 ty
  | .xor ty => dgHandleLogical "dg_logical_xor64" arg1 arg2 d1 d2 ty
  | .sqrt s => if s.hasSqrtBinop then some (derivativeOfBinopSqrt s arg1 arg2 d2) else none
  | .f64toF32 => some (.binop .f64toF32 arg1 d2)
  | .twoXm1F64 =>
    some (.triop (.mul .f64) arg1 (.triop (.mul .f64) arg1 (.const (.f64 ln2Double)) d2)
      (.triop (.add .f64) arg1 (.const (.f64 1)) (.binop .twoXm1F64 arg1 arg2)))
  | .mul s => if s.isLowest then some (lowestMulDerivative s arg1 arg2 d1 d2) else none
  | .div s => if s.isLowest then some (lowestDivDerivative s arg1 arg2 d1 d2) else none
  | .min .v64F0x2 => some (min64F0x2Derivative arg1 arg2 d1 d2)
  | .iToF _ .i64 .f64 | .roundF64toInt => some (mkIRConstZero .f64)
  | .iToF _ .i64 .f32 | .iToF _ .i32 .f32 => some (mkIRConstZero .f32)
  | _ => if op.isTransportBinop then some (.binop op d1 d2) else none

section Line

variable (x dx y dy : ℝ)

end Line

/-! ## Lane-wise rules on values -/

section Values

open LaneVal

variable {s : FShape} (x dx y dy : LaneVal) {i : Nat}

end Values

/-! ## The rules under real lanes -/

noncomputable section

end

section Rules

open LaneVal

variable (ext : Interp LaneVal) {T : Type} (st : State LaneVal T)

variable (arg1 arg2 arg3 d1 d2 d3 : IRExpr) {i : Nat}

end Rules

end Derivgrind
