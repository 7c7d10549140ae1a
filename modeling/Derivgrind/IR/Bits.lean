import Derivgrind.IR.Semantics

/-!
# Derivgrind.IR.Bits

The bit-level interpretation of the IR: every value is the natural number its bits spell,
little-endian in memory. This is how recording mode's shadow values are meant: a tape index
is an integer, and a partial derivative reaches the tape as the bits of a `double`.

The integer operators the recording-mode instrumentation emits (narrowing, taking the high
half or a quarter of a 256-bit vector, concatenating halves or quarters, zero-extension,
reinterpretation, `CmpEQ`, the logical operators and the 64-bit addition of addresses) are
given their VEX meaning; every other operator, and
the guest's helpers, are left to an arbitrary interpretation `ext`.
-/

namespace Derivgrind

variable (ext : Interp Nat)

/-- The vector whose byte `i` is `0xFF` when bit `i` of `mask` is set, and `0` otherwise
(`IRConst_V128`, `IRConst_V256`). -/
def byteMask (bytes mask : Nat) : Nat :=
  leNat (List.ofFn fun i : Fin bytes => if mask.testBit i then 0xFF else 0)

/-- Constants: integers and bit patterns are their bits. Decimal floating-point literals,
which need rounding, are left to `ext`. -/
def bitsConst : IRConst → Nat
  | .u1 b => b.toNat
  | .u8 n | .u16 n | .u32 n | .u64 n | .u128 n => n
  | .f32i bits | .f64i bits => bits
  | .v128 mask => byteMask 16 mask
  | .v256 mask => byteMask 32 mask
  | c => ext.const c

/-- Unary operators: `Iop_<src>to<dst>` keeps the low bits, `Iop_<src>HIto<dst>` the high
half, `Iop_V256to64_<k>` the `k`-th quarter from the least significant one, widening and
reinterpretation keep the bits. -/
def bitsUnop : IROp → Nat → Nat
  | .lo _ dst, w => w % 2 ^ dst.intWidth
  | .hi _ dst, w => w / 2 ^ dst.intWidth % 2 ^ dst.intWidth
  | .v256to64 k, w => w / 2 ^ (64 * k.val) % 2 ^ 64
  | .zext _ _, w => w
  | .reinterp _ _, w => w
  | op, w => ext.unop op w

/-- Binary operators: `Iop_<half>HLto<res>(hi, lo)`, `CmpEQ`, the logical operators and
`Iop_Add64`. -/
def bitsBinop : IROp → Nat → Nat → Nat
  | .hlTo half _, hi, lo => hi * 2 ^ half.intWidth + lo
  | .cmpEQ _, a, b => (decide (a = b)).toNat
  | .and _, a, b => a &&& b
  | .or _, a, b => a ||| b
  | .xor _, a, b => a ^^^ b
  | .other "Add64" _, a, b => (a + b) % 2 ^ 64
  | op, a, b => ext.binop op a b

/-- Four-operand operators: `Iop_64x4toV256`, most significant first. -/
def bitsQop : IROp → Nat → Nat → Nat → Nat → Nat
  | .v64x4toV256, w3, w2, w1, w0 => ((w3 * 2 ^ 64 + w2) * 2 ^ 64 + w1) * 2 ^ 64 + w0
  | op, a, b, c, d => ext.qop op a b c d

/-- The bit-level interpretation. -/
def bitsInterp : Interp Nat where
  const := bitsConst ext
  unop := bitsUnop ext
  binop := bitsBinop ext
  triop := ext.triop
  qop := bitsQop ext
  ccall := ext.ccall
  isTrue w := w % 2 == 1
  toAddr w := BitVec.ofNat 64 w
  toInt w := w
  decode _ bs := leNat bs
  encode ty w := leBytes w (sizeofIRType ty)
  guestCall := ext.guestCall

@[simp] theorem bitsInterp_const : (bitsInterp ext).const = bitsConst ext := rfl
@[simp] theorem bitsInterp_unop : (bitsInterp ext).unop = bitsUnop ext := rfl
@[simp] theorem bitsInterp_binop : (bitsInterp ext).binop = bitsBinop ext := rfl
@[simp] theorem bitsInterp_qop : (bitsInterp ext).qop = bitsQop ext := rfl
@[simp] theorem bitsInterp_ccall : (bitsInterp ext).ccall = ext.ccall := rfl
@[simp] theorem bitsInterp_isTrue (w : Nat) : (bitsInterp ext).isTrue w = (w % 2 == 1) := rfl
@[simp] theorem bitsInterp_toAddr (w : Nat) : (bitsInterp ext).toAddr w = BitVec.ofNat 64 w := rfl
@[simp] theorem bitsInterp_decode (ty : IRType) (bs : List UInt8) :
    (bitsInterp ext).decode ty bs = leNat bs := rfl
@[simp] theorem bitsInterp_encode (ty : IRType) (w : Nat) :
    (bitsInterp ext).encode ty w = leBytes w (sizeofIRType ty) := rfl

/-- The interpretation of what lies outside the bit-level fragment that the examples use:
other operators yield `0` and guest helpers change nothing. -/
def Interp.inertBits : Interp Nat where
  const _ := 0
  unop _ _ := 0
  binop _ _ _ := 0
  triop _ _ _ _ := 0
  qop _ _ _ _ _ := 0
  ccall _ _ := 0
  isTrue _ := false
  toAddr _ := 0
  toInt _ := 0
  decode _ _ := 0
  encode ty _ := List.replicate (sizeofIRType ty) 0
  guestCall _ _ g m := (0, g, m)

/-- Bytes read as a value of a type and written back are the bytes read. -/
theorem bitsInterp_encode_decode {ty : IRType} {bs : List UInt8}
    (h : bs.length = sizeofIRType ty) :
    (bitsInterp ext).encode ty ((bitsInterp ext).decode ty bs) = bs := by
  simp only [bitsInterp_encode, bitsInterp_decode, ← h, leBytes_leNat]

/-- `Iop_Add64` of an address and an offset is the wrapping sum of addresses. -/
theorem bitsInterp_toAddr_add64 (a n : Nat) :
    (bitsInterp ext).toAddr (bitsBinop ext (.other "Add64" .i64) a n) =
      BitVec.ofNat 64 a + BitVec.ofNat 64 n := by
  simp only [bitsInterp_toAddr, bitsBinop]
  apply BitVec.eq_of_toNat_eq
  simp [Nat.add_mod]

end Derivgrind
