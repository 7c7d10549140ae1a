import Derivgrind.IR.Exact

/-!
# Derivgrind.IR.Lanes

The IR with every floating-point lane a real number: the reading under which a derivative
rule of the tools is checked against calculus. A scalar is a one-lane vector; the SSE forms
that compute in the lowest lane only (`Iop_Mul64F0x2`, ...) copy the upper lanes of their
first operand, as VEX specifies. Rounding-mode operands are ignored, and the x87 operators
are the functions VEX names them after (`Iop_Yl2xF64` is `arg2 * log₂ arg3`, and so on).

Reinterpreting a float as an integer keeps its lanes, so the vector constants the rules build
from `IRConst_F64(2.)` through `Iop_ReinterpF64asI64` and `Iop_64HLtoV128` are vectors of
twos; the part and concatenation operators work on lanes, taking the lane width from their
operand. Whatever lies outside this fragment is left to an arbitrary interpretation `ext`.

`TangentAt` says what a tangent is: the derivative, lane by lane, of a curve of values.
-/

namespace Derivgrind

/-- The width in bytes of a lane of the shape. -/
def FShape.laneWidth : FShape → Nat
  | .f64 | .v64Fx2 | .v64Fx4 | .v64F0x2 => 8
  | .f32 | .v32Fx4 | .v32Fx8 | .v32Fx2 | .v32F0x4 => 4

/-- The number of lanes of the shape. -/
def FShape.laneCount : FShape → Nat
  | .f64 | .f32 => 1
  | .v64Fx2 | .v32Fx2 | .v64F0x2 => 2
  | .v64Fx4 | .v32Fx4 | .v32F0x4 => 4
  | .v32Fx8 => 8

/-- The SSE forms that compute in the lowest lane and copy the others from their first
operand. -/
def FShape.isLowest : FShape → Bool
  | .v64F0x2 | .v32F0x4 => true
  | _ => false

theorem getD_ofFn {k : Nat} (f : Fin k → ℝ) (i : Nat) :
    (List.ofFn f).getD i 0 = if h : i < k then f ⟨i, h⟩ else 0 := by
  simp only [List.getD_eq_getElem?_getD, List.getElem?_ofFn, List.ofFnNthVal]
  split <;> rfl

/-- `k` lanes of `xs` from lane `off` on, a lane past the end read as `0`. -/
def chunk (off k : Nat) (xs : List ℝ) : List ℝ :=
  List.ofFn fun i : Fin k => xs.getD (off + i) 0

@[simp] theorem length_chunk (off k : Nat) (xs : List ℝ) : (chunk off k xs).length = k :=
  List.length_ofFn _

theorem getD_chunk (off k : Nat) (xs : List ℝ) (i : Nat) :
    (chunk off k xs).getD i 0 = if i < k then xs.getD (off + i) 0 else 0 := by
  rw [chunk, getD_ofFn]
  split <;> rfl

noncomputable section

/-- The number `2 ^ x - 1` of `Iop_2xm1F64`. -/
def twoXm1 (x : ℝ) : ℝ := (2 : ℝ) ^ x - 1

/-- `x` rounded toward zero, the exponent `FSCALE` (`Iop_ScaleF64`) scales by. -/
def truncInt (x : ℝ) : ℤ := if 0 ≤ x then ⌊x⌋ else ⌈x⌉

/-- A value with real lanes: a floating-point scalar or vector as its lanes, lowest first,
each `width` bytes wide, or an integer value as its bits. -/
inductive LaneVal where
  | lanes (width : Nat) (xs : List ℝ)
  | word (n : Nat)

namespace LaneVal

/-- Lane `i`; an integer, and a lane past the end, read as `0`. -/
def lane : LaneVal → Nat → ℝ
  | lanes _ xs, i => xs.getD i 0
  | word _, _ => 0

/-- The lane width, `8` for an integer. -/
def width : LaneVal → Nat
  | lanes w _ => w
  | word _ => 8

/-- The number of lanes, none for an integer. -/
def length : LaneVal → Nat
  | lanes _ xs => xs.length
  | word _ => 0

/-- A lane-wise operator on the `s.laneCount` lanes of shape `s`; the lowest-lane forms apply
it to lane `0` only and copy the other lanes of `x`. -/
def laneOp (s : FShape) (f : ℝ → ℝ → ℝ) (x y : LaneVal) : LaneVal :=
  lanes s.laneWidth (List.ofFn fun i : Fin s.laneCount =>
    if s.isLowest ∧ (i : Nat) ≠ 0 then x.lane i else f (x.lane i) (y.lane i))

@[simp] theorem lane_word (n i : Nat) : (word n).lane i = 0 := rfl

end LaneVal

open LaneVal

/-- Literals: a float is its one lane, a bit pattern of `Ity_F64`/`Ity_F32` the number it
stands for; integers and vector masks are bits. -/
def laneConst : IRConst → LaneVal
  | .f64 x => lanes 8 [x]
  | .f32 x => lanes 4 [x]
  | .f64i bits => lanes 8 [ieeeValue 11 52 bits]
  | .f32i bits => lanes 4 [ieeeValue 8 23 bits]
  | .u1 b => word b.toNat
  | .u8 n | .u16 n | .u32 n | .u64 n | .u128 n | .v128 n | .v256 n => word n

variable (ext : Interp LaneVal)

/-- Unary operators: lane-wise negation, absolute value and square root; widening a float;
reinterpreting keeps the lanes (or decodes an integer's bits); the low and high parts
(`Iop_V128to64`, `Iop_V128HIto64`, `Iop_32to1`, ...) take lanes or bits. -/
def laneUnop : IROp → LaneVal → LaneVal
  | .neg s, v => laneOp s (fun a _ => -a) v v
  | .abs s, v => laneOp s (fun a _ => |a|) v v
  | .sqrt s, v => laneOp s (fun a _ => Real.sqrt a) v v
  | .f32toF64, v => lanes 8 [v.lane 0]
  | .reinterp _ _, lanes w xs => lanes w xs
  | .reinterp .i64 .f64, word n => lanes 8 [ieeeValue 11 52 n]
  | .reinterp .i32 .f32, word n => lanes 4 [ieeeValue 8 23 n]
  | .lo _ dst, lanes w xs => lanes w (chunk 0 (sizeofIRType dst / w) xs)
  | .lo _ dst, word n => word (n % 2 ^ dst.intWidth)
  | .hi _ dst, lanes w xs => lanes w (chunk (sizeofIRType dst / w) (sizeofIRType dst / w) xs)
  | .hi _ dst, word n => word (n / 2 ^ dst.intWidth % 2 ^ dst.intWidth)
  | op, v => ext.unop op v

/-- Binary operators: the lowest-lane arithmetic and minimum, square root, narrowing and
`2 ^ x - 1` after a rounding mode, comparison of the lowest lanes, and the concatenation
`Iop_<half>HLto<res>` of a high and a low half. -/
def laneBinop : IROp → LaneVal → LaneVal → LaneVal
  | .add s, x, y => laneOp s (· + ·) x y
  | .sub s, x, y => laneOp s (· - ·) x y
  | .mul s, x, y => laneOp s (· * ·) x y
  | .div s, x, y => laneOp s (· / ·) x y
  | .min s, x, y => laneOp s min x y
  | .sqrt s, _, v => laneOp s (fun a _ => Real.sqrt a) v v
  | .cmp .f64, x, y | .cmp .f32, x, y => word (cmpResult (x.lane 0) (y.lane 0))
  | .f64toF32, _, v => lanes 4 [v.lane 0]
  | .twoXm1F64, _, v => lanes 8 [twoXm1 (v.lane 0)]
  | .hlTo half _, lanes _ hi, lanes w lo =>
    lanes w (chunk 0 (sizeofIRType half / w) lo ++ chunk 0 (sizeofIRType half / w) hi)
  | .hlTo half _, word hi, word lo => word (hi * 2 ^ half.intWidth + lo)
  | op, x, y => ext.binop op x y

/-- Ternary operators after a rounding mode: lane-wise `+ - * /`, and the x87 operators
`arctan (arg2 / arg3)`, `arg2 * 2 ^ trunc arg3`, `arg2 * log₂ arg3` and
`arg2 * log₂ (arg3 + 1)`. -/
def laneTriop : IROp → LaneVal → LaneVal → LaneVal → LaneVal
  | .add s, _, x, y => laneOp s (· + ·) x y
  | .sub s, _, x, y => laneOp s (· - ·) x y
  | .mul s, _, x, y => laneOp s (· * ·) x y
  | .div s, _, x, y => laneOp s (· / ·) x y
  | .atanF64, _, y, x => lanes 8 [Real.arctan (y.lane 0 / x.lane 0)]
  | .scaleF64, _, y, x => lanes 8 [y.lane 0 * (2 : ℝ) ^ truncInt (x.lane 0)]
  | .yl2xF64, _, y, x => lanes 8 [y.lane 0 * Real.logb 2 (x.lane 0)]
  | .yl2xp1F64, _, y, x => lanes 8 [y.lane 0 * Real.logb 2 (x.lane 0 + 1)]
  | op, r, x, y => ext.triop op r x y

/-- `Iop_64x4toV256` concatenates four quarters, the lowest last. -/
def laneQop : IROp → LaneVal → LaneVal → LaneVal → LaneVal → LaneVal
  | .v64x4toV256, lanes _ a3, lanes _ a2, lanes _ a1, lanes w a0 =>
    lanes w (chunk 0 (8 / w) a0 ++ chunk 0 (8 / w) a1 ++ chunk 0 (8 / w) a2 ++ chunk 0 (8 / w) a3)
  | op, a, b, c, d => ext.qop op a b c d

/-- The interpretation with real lanes. -/
def laneInterp : Interp LaneVal where
  const := laneConst
  unop := laneUnop ext
  binop := laneBinop ext
  triop := laneTriop ext
  qop := laneQop ext
  ccall := ext.ccall
  isTrue
    | .word n => n % 2 == 1
    | v => ext.isTrue v
  toAddr
    | .word n => BitVec.ofNat 64 n
    | v => ext.toAddr v
  toInt
    | .word n => n
    | v => ext.toInt v
  decode := ext.decode
  encode := ext.encode
  guestCall := ext.guestCall

@[simp] theorem laneInterp_unop : (laneInterp ext).unop = laneUnop ext := rfl
@[simp] theorem laneInterp_qop : (laneInterp ext).qop = laneQop ext := rfl

@[simp] theorem laneInterp_isTrue_word (n : Nat) : (laneInterp ext).isTrue (word n) = (n % 2 == 1) :=
  rfl

end

end Derivgrind
