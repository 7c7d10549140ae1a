import Derivgrind.IR.Semantics

/-!
# Derivgrind.IR.Exact

Exact arithmetic as an interpretation of the IR: a floating-point value is the number it
stands for, in any linearly ordered field, and the scalar floating-point operators
compute on those numbers exactly, ignoring their rounding-mode operand. Integer values are
their bits. Everything else (vector and integer arithmetic, helper calls) is left to an
arbitrary interpretation `ext`, so that results proved here hold whatever it does.

`ExactArith.rat` is a concrete instance: IEEE-754 bit patterns read as the rationals they
stand for.
-/

namespace Derivgrind

/-- A value under exact arithmetic: a floating-point value as a number, or an integer value
as its bits. -/
inductive Val (K : Type) where
  | num (x : K)
  | word (w : Nat)

/-- The number a value stands for; an integer is read unsigned. -/
def Val.toReal {K : Type} [NatCast K] : Val K → K
  | .num x => x
  | .word w => w

/-- What exact arithmetic takes as given: a square root, and the number a bit pattern of
`Ity_F64` or `Ity_F32` stands for, all-zero bytes standing for zero. -/
structure ExactArith (K : Type) [LinearOrderedField K] where
  /-- The square root. The results below hold for any choice of it. -/
  sqrt : K → K
  decodeF64 : List UInt8 → K
  decodeF32 : List UInt8 → K
  decodeF64_zero : decodeF64 (List.replicate 8 0) = 0
  decodeF32_zero : decodeF32 (List.replicate 4 0) = 0

/-- The result of `CmpF64`/`CmpF32` on numbers: `Ircr_LT`, `Ircr_GT` or `Ircr_EQ` (no number
is unordered). -/
def cmpResult {K : Type} [LinearOrder K] (x y : K) : Nat :=
  if x < y then 0x01 else if y < x then 0x00 else 0x40

variable {K : Type} [LinearOrderedField K] (A : ExactArith K) (ext : Interp (Val K))

/-- Constants: floating-point literals are their numbers, bit patterns are decoded. -/
def exactConst : IRConst → Val K
  | .u1 b => .word b.toNat
  | .u8 n | .u16 n | .u32 n | .u64 n | .u128 n => .word n
  | .f32 x | .f64 x => .num x
  | .f32i bits => .num (A.decodeF32 (leBytes bits 4))
  | .f64i bits => .num (A.decodeF64 (leBytes bits 8))
  | .v128 m | .v256 m => .word m

/-- Unary operators: scalar negation and absolute value on numbers; reinterpreting an
integer as a float decodes its low bytes; narrowing keeps the low bits, widening
zero-extends. -/
def exactUnop : IROp → Val K → Val K
  | .neg .f64, v | .neg .f32, v => .num (-v.toReal)
  | .abs .f64, v | .abs .f32, v => .num |v.toReal|
  | .reinterp .i64 .f64, .word w => .num (A.decodeF64 (leBytes w 8))
  | .reinterp .i32 .f32, .word w => .num (A.decodeF32 (leBytes w 4))
  | .lo _ dst, .word w => .word (w % 2 ^ dst.intWidth)
  | .zext _ _, .word w => .word w
  | op, v => ext.unop op v

@[simp] theorem exactUnop_lo_word (src dst : IRType) (w : Nat) :
    exactUnop A ext (.lo src dst) (.word w) = .word (w % 2 ^ dst.intWidth) := rfl

@[simp] theorem exactUnop_reinterp_f64 (w : Nat) :
    exactUnop A ext (.reinterp .i64 .f64) (.word w) = .num (A.decodeF64 (leBytes w 8)) := rfl

@[simp] theorem exactUnop_reinterp_f32 (w : Nat) :
    exactUnop A ext (.reinterp .i32 .f32) (.word w) = .num (A.decodeF32 (leBytes w 4)) := rfl

/-- Binary operators: scalar square root (rounding mode ignored) and comparison. -/
def exactBinop : IROp → Val K → Val K → Val K
  | .sqrt .f64, _, v | .sqrt .f32, _, v => .num (A.sqrt v.toReal)
  | .cmp .f64, x, y | .cmp .f32, x, y => .word (cmpResult x.toReal y.toReal)
  | op, x, y => ext.binop op x y

/-- Ternary operators: scalar `+ - * /` (rounding mode ignored). -/
def exactTriop : IROp → Val K → Val K → Val K → Val K
  | .add .f64, _, x, y | .add .f32, _, x, y => .num (x.toReal + y.toReal)
  | .sub .f64, _, x, y | .sub .f32, _, x, y => .num (x.toReal - y.toReal)
  | .mul .f64, _, x, y | .mul .f32, _, x, y => .num (x.toReal * y.toReal)
  | .div .f64, _, x, y | .div .f32, _, x, y => .num (x.toReal / y.toReal)
  | op, r, x, y => ext.triop op r x y

/-- Reading bytes: floats are decoded, integers are read little-endian. -/
def exactDecode : IRType → List UInt8 → Val K
  | .f64, bs => .num (A.decodeF64 bs)
  | .f32, bs => .num (A.decodeF32 bs)
  | .i1, bs | .i8, bs | .i16, bs | .i32, bs | .i64, bs | .i128, bs => .word (leNat bs)
  | ty, bs => ext.decode ty bs

/-- The exact interpretation. -/
def exactInterp : Interp (Val K) where
  const := exactConst A
  unop := exactUnop A ext
  binop := exactBinop A ext
  triop := exactTriop ext
  qop := ext.qop
  ccall := ext.ccall
  isTrue
    | .word w => w % 2 == 1
    | v => ext.isTrue v
  toAddr
    | .word w => BitVec.ofNat 64 w
    | v => ext.toAddr v
  toInt
    | .word w => w
    | v => ext.toInt v
  decode := exactDecode A ext
  encode
    | ty, .word w => leBytes w (sizeofIRType ty)
    | ty, v => ext.encode ty v
  guestCall := ext.guestCall

@[simp] theorem exactInterp_const : (exactInterp A ext).const = exactConst A := rfl
@[simp] theorem exactInterp_unop : (exactInterp A ext).unop = exactUnop A ext := rfl
@[simp] theorem exactInterp_binop : (exactInterp A ext).binop = exactBinop A ext := rfl
@[simp] theorem exactInterp_triop : (exactInterp A ext).triop = exactTriop ext := rfl
@[simp] theorem exactInterp_decode : (exactInterp A ext).decode = exactDecode A ext := rfl

/-- The interpretation of what lies outside the exact fragment that the examples use: other
operators yield `0` and guest helpers change nothing. -/
def Interp.inert : Interp (Val K) where
  const _ := .word 0
  unop _ _ := .word 0
  binop _ _ _ := .word 0
  triop _ _ _ _ := .word 0
  qop _ _ _ _ _ := .word 0
  ccall _ _ := .word 0
  isTrue _ := false
  toAddr _ := 0
  toInt _ := 0
  decode _ _ := .word 0
  encode ty _ := List.replicate (sizeofIRType ty) 0
  guestCall _ _ g m := (.word 0, g, m)

/-! ## IEEE-754 values as rationals -/

/-- The rational an IEEE-754 binary bit pattern with `expBits` exponent and `fracBits`
fraction bits stands for; infinities and NaNs, which stand for no number, read as `0`. -/
def ieeeValue (expBits fracBits w : Nat) : ℚ :=
  let frac := w % 2 ^ fracBits
  let e := w / 2 ^ fracBits % 2 ^ expBits
  let bias : Int := 2 ^ (expBits - 1) - 1
  let mag : ℚ :=
    if e = 0 then (frac : ℚ) / 2 ^ fracBits * 2 ^ (1 - bias)
    else if e = 2 ^ expBits - 1 then 0
    else (1 + (frac : ℚ) / 2 ^ fracBits) * 2 ^ ((e : Int) - bias)
  if w / 2 ^ (expBits + fracBits) % 2 = 1 then -mag else mag

/-- Exact arithmetic over the rationals, with `binary64`/`binary32` decoding. -/
def ExactArith.rat : ExactArith ℚ where
  sqrt := Rat.sqrt
  decodeF64 bs := ieeeValue 11 52 (leNat bs)
  decodeF32 bs := ieeeValue 8 23 (leNat bs)
  decodeF64_zero := by simp [ieeeValue, leNat]
  decodeF32_zero := by simp [ieeeValue, leNat]

/-- `0x3FF0000000000000` is `1.0`. -/
example : ExactArith.rat.decodeF64 (leBytes 0x3FF0000000000000 8) = 1 := by
  rw [ExactArith.rat]
  simp only [leNat_leBytes]
  norm_num [ieeeValue]

end Derivgrind
