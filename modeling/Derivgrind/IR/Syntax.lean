import Mathlib

/-!
# Derivgrind.IR.Syntax

The fragment of Valgrind's VEX intermediate representation that the Nulgrind prototype
(`nl_main.c`) and Derivgrind's recording mode read and emit: types, constants, the
primitive operators the tools name, expressions, statements and superblocks.

Operators that the code generates through macros over a suffix (`Iop_Add##suffix`,
`Iop_Sqrt##suffix`, ...) are one constructor with the suffix as parameter (`FShape`);
every other VEX operator is `IROp.other`, which carries its result type. Guest-state
offsets are natural numbers, addresses are 64-bit words, and temporaries are indices into
the superblock's type environment. Only little-endian guests (x86, amd64) are modelled, so
the endianness fields of loads, stores and CAS are left out.
-/

namespace Derivgrind

/-- A guest or shadow address (`Addr`, `SM_Addr`): a 64-bit word, so offsets wrap. -/
abbrev Addr := BitVec 64

/-- `IRType`. `Ity_INVALID` is not a type any well-formed expression has, and is left out. -/
inductive IRType where
  | i1 | i8 | i16 | i32 | i64 | i128
  | f16 | f32 | f64 | d32 | d64 | d128 | f128
  | v128 | v256
  deriving DecidableEq, Repr

/-- `sizeofIRType`: the number of bytes a value of the type occupies. VEX panics on
`Ity_I1`, which no register write, load or store has; it is given size `0` here. -/
def sizeofIRType : IRType → Nat
  | .i1 => 0
  | .i8 => 1
  | .i16 | .f16 => 2
  | .i32 | .f32 | .d32 => 4
  | .i64 | .f64 | .d64 => 8
  | .i128 | .f128 | .d128 | .v128 => 16
  | .v256 => 32

/-- The width in bits of an integer type. -/
def IRType.intWidth : IRType → Nat
  | .i1 => 1
  | ty => 8 * sizeofIRType ty

/-- `canConvertToI64`: the types whose values the shadow-memory helpers can carry as an
8-byte integer. -/
def canConvertToI64 : IRType → Bool
  | .i8 | .i16 | .i32 | .i64 | .f32 | .f64 => true
  | _ => false

/-- `IRConst`. Floating-point literals carry the rational number they denote; the `...i`
forms carry a bit pattern. -/
inductive IRConst where
  | u1 (b : Bool)
  | u8 (n : Nat) | u16 (n : Nat) | u32 (n : Nat) | u64 (n : Nat) | u128 (n : Nat)
  | f32 (x : ℚ) | f32i (bits : Nat)
  | f64 (x : ℚ) | f64i (bits : Nat)
  | v128 (mask : Nat) | v256 (mask : Nat)
  deriving DecidableEq, Repr

/-- `typeOfIRConst`. -/
def IRConst.type : IRConst → IRType
  | .u1 _ => .i1
  | .u8 _ => .i8
  | .u16 _ => .i16
  | .u32 _ => .i32
  | .u64 _ => .i64
  | .u128 _ => .i128
  | .f32 _ | .f32i _ => .f32
  | .f64 _ | .f64i _ => .f64
  | .v128 _ => .v128
  | .v256 _ => .v256

/-- The suffix of the floating-point arithmetic operators (`Iop_AddF64`, `Iop_Add64Fx2`,
`Iop_Add64F0x2`, ...): scalars, whole vectors, and the SSE forms that compute in the
lowest lane only. -/
inductive FShape where
  | f64 | f32
  | v64Fx2 | v64Fx4 | v32Fx4 | v32Fx8 | v32Fx2
  | v64F0x2 | v32F0x4
  deriving DecidableEq, Repr

/-- The type of a value of the given shape. -/
def FShape.type : FShape → IRType
  | .f64 => .f64
  | .f32 => .f32
  | .v64Fx2 | .v32Fx4 | .v64F0x2 | .v32F0x4 => .v128
  | .v64Fx4 | .v32Fx8 => .v256
  | .v32Fx2 => .i64

/-- `IROp`, the operators the tools name. `lo src dst` is `Iop_<src>to<dst>` (the low
part, e.g. `Iop_64to32`, `Iop_32to1`, `Iop_V128to64`), `hi` the `...HIto...` forms,
`hlTo half res` is `Iop_<half>HLto<res>`, `iToF signed src dst` the integer-to-float
conversions and `reinterp src dst` the `Iop_Reinterp<src>as<dst>` family. -/
inductive IROp where
  | add (s : FShape) | sub (s : FShape) | mul (s : FShape) | div (s : FShape)
  | sqrt (s : FShape) | neg (s : FShape) | abs (s : FShape) | min (s : FShape)
  | cmp (s : FShape)
  | atanF64 | scaleF64 | yl2xF64 | yl2xp1F64 | twoXm1F64
  | f64toF32 | f32toF64 | roundF64toInt
  | iToF (signed : Bool) (src dst : IRType)
  | reinterp (src dst : IRType)
  | and (ty : IRType) | or (ty : IRType) | xor (ty : IRType)
  | cmpEQ (ty : IRType)
  | lo (src dst : IRType) | hi (src dst : IRType)
  | zext (src dst : IRType) | sext (src dst : IRType)
  | hlTo (half res : IRType)
  | v256to64 (k : Fin 4) | v64x4toV256
  | zeroHI (bits : Nat) | setV128lo (ty : IRType)
  | interleaveHI (ty : IRType) | interleaveLO (ty : IRType)
  | other (name : String) (resTy : IRType)
  deriving DecidableEq, Repr

/-- The result type of an operator (`typeOfPrimop`). -/
def IROp.resultType : IROp → IRType
  | .add s | .sub s | .mul s | .div s | .sqrt s | .neg s | .abs s | .min s => s.type
  | .cmp _ => .i32
  | .atanF64 | .scaleF64 | .yl2xF64 | .yl2xp1F64 | .twoXm1F64 | .f32toF64
  | .roundF64toInt => .f64
  | .f64toF32 => .f32
  | .iToF _ _ dst | .reinterp _ dst => dst
  | .and ty | .or ty | .xor ty => ty
  | .cmpEQ _ => .i1
  | .lo _ dst | .hi _ dst | .zext _ dst | .sext _ dst => dst
  | .hlTo _ res => res
  | .v256to64 _ => .i64
  | .v64x4toV256 => .v256
  | .zeroHI _ | .setV128lo _ | .interleaveHI _ | .interleaveLO _ => .v128
  | .other _ ty => ty

/-- `IRRegArray`: a circular array of `nElems` guest registers of type `elemTy`, the first
at guest offset `base`. -/
structure IRRegArray where
  base : Nat
  elemTy : IRType
  nElems : Nat
  deriving DecidableEq, Repr

/-- `IRExpr`. A helper call's arguments are a function on `Fin n`, so that the type is an
ordinary inductive and expressions are proved about by plain induction. -/
inductive IRExpr where
  | const (con : IRConst)
  | rdTmp (tmp : Nat)
  | get (offset : Nat) (ty : IRType)
  | getI (descr : IRRegArray) (ix : IRExpr) (bias : Int)
  | load (ty : IRType) (addr : IRExpr)
  | unop (op : IROp) (arg : IRExpr)
  | binop (op : IROp) (arg1 arg2 : IRExpr)
  | triop (op : IROp) (arg1 arg2 arg3 : IRExpr)
  | qop (op : IROp) (arg1 arg2 arg3 arg4 : IRExpr)
  | ite (cond iftrue iffalse : IRExpr)
  | ccall (cee : String) (retTy : IRType) (n : Nat) (args : Fin n → IRExpr)

/-- `typeOfIRExpr` in the type environment `tyenv`. -/
def IRExpr.type (tyenv : List IRType) : IRExpr → IRType
  | .const c => c.type
  | .rdTmp t => tyenv.getD t .i64
  | .get _ ty => ty
  | .getI descr _ _ => descr.elemTy
  | .load ty _ => ty
  | .unop op _ | .binop op _ _ | .triop op _ _ _ | .qop op _ _ _ _ => op.resultType
  | .ite _ e _ => e.type tyenv
  | .ccall _ ty _ _ => ty

/-- Every node of an expression satisfies `p`. -/
def IRExpr.all (p : IRExpr → Prop) : IRExpr → Prop
  | .const c => p (.const c)
  | .rdTmp t => p (.rdTmp t)
  | .get off ty => p (.get off ty)
  | .getI d ix bias => p (.getI d ix bias) ∧ ix.all p
  | .load ty a => p (.load ty a) ∧ a.all p
  | .unop op a => p (.unop op a) ∧ a.all p
  | .binop op a b => p (.binop op a b) ∧ a.all p ∧ b.all p
  | .triop op a b c => p (.triop op a b c) ∧ a.all p ∧ b.all p ∧ c.all p
  | .qop op a b c d => p (.qop op a b c d) ∧ a.all p ∧ b.all p ∧ c.all p ∧ d.all p
  | .ite c a b => p (.ite c a b) ∧ c.all p ∧ a.all p ∧ b.all p
  | .ccall cee ty n args => p (.ccall cee ty n args) ∧ ∀ i, (args i).all p

instance IRExpr.decAll (p : IRExpr → Prop) [DecidablePred p] :
    (e : IRExpr) → Decidable (e.all p)
  | .const _ | .rdTmp _ | .get _ _ => inferInstanceAs (Decidable (p _))
  | .getI _ ix _ => @instDecidableAnd _ _ inferInstance (IRExpr.decAll p ix)
  | .load _ a | .unop _ a => @instDecidableAnd _ _ inferInstance (IRExpr.decAll p a)
  | .binop _ a b =>
    @instDecidableAnd _ _ inferInstance
      (@instDecidableAnd _ _ (IRExpr.decAll p a) (IRExpr.decAll p b))
  | .triop _ a b c =>
    @instDecidableAnd _ _ inferInstance (@instDecidableAnd _ _ (IRExpr.decAll p a)
      (@instDecidableAnd _ _ (IRExpr.decAll p b) (IRExpr.decAll p c)))
  | .qop _ a b c d =>
    @instDecidableAnd _ _ inferInstance (@instDecidableAnd _ _ (IRExpr.decAll p a)
      (@instDecidableAnd _ _ (IRExpr.decAll p b)
        (@instDecidableAnd _ _ (IRExpr.decAll p c) (IRExpr.decAll p d))))
  | .ite c a b =>
    @instDecidableAnd _ _ inferInstance (@instDecidableAnd _ _ (IRExpr.decAll p c)
      (@instDecidableAnd _ _ (IRExpr.decAll p a) (IRExpr.decAll p b)))
  | .ccall _ _ m args =>
    @instDecidableAnd _ _ inferInstance
      (@Nat.decidableForallFin m _ fun i => IRExpr.decAll p (args i))

theorem IRExpr.all_imp {p q : IRExpr → Prop} (h : ∀ e, p e → q e) :
    ∀ e : IRExpr, e.all p → e.all q
  | .const _, hp | .rdTmp _, hp | .get _ _, hp => h _ hp
  | .getI _ ix _, ⟨hp, hix⟩ => ⟨h _ hp, all_imp h ix hix⟩
  | .load _ a, ⟨hp, ha⟩ | .unop _ a, ⟨hp, ha⟩ => ⟨h _ hp, all_imp h a ha⟩
  | .binop _ a b, ⟨hp, ha, hb⟩ => ⟨h _ hp, all_imp h a ha, all_imp h b hb⟩
  | .triop _ a b c, ⟨hp, ha, hb, hc⟩ =>
    ⟨h _ hp, all_imp h a ha, all_imp h b hb, all_imp h c hc⟩
  | .qop _ a b c d, ⟨hp, ha, hb, hc, hd⟩ =>
    ⟨h _ hp, all_imp h a ha, all_imp h b hb, all_imp h c hc, all_imp h d hd⟩
  | .ite c a b, ⟨hp, hc, ha, hb⟩ => ⟨h _ hp, all_imp h c hc, all_imp h a ha, all_imp h b hb⟩
  | .ccall _ _ _ args, ⟨hp, hargs⟩ => ⟨h _ hp, fun i => all_imp h (args i) (hargs i)⟩

/-- The two shadow layers of recording mode, `sm_barLo` and `sm_barHi`: for every client
byte, the lower and the upper half of the 8-byte tape index of the value it belongs to. -/
inductive Layer where
  | lo | hi
  deriving DecidableEq, Repr

/-- The callee of a dirty call: a helper of the guest's front end (its effect on the guest
state and memory is the guest's business), or one of the tool's own helpers, which only
touch the tool's shadow state. -/
inductive IRCallee where
  | guest (name : String)
  /-- `nl_Store_diff1`, ..., `nl_Store_diff8`: `nl_Store_diff` at the given size. -/
  | nlStoreDiff (size : Nat)
  /-- `nl_Load_diff1`, ..., `nl_Load_diff8`: `nl_Load_diff` at the given size. -/
  | nlLoadDiff (size : Nat)
  /-- `dg_bar_writeToTape_call`. -/
  | dgBarWriteToTapeCall
  /-- `dg_bar_x86g_amd64g_dirtyhelper_storeF80le_Lo` and `_Hi`. -/
  | dgBarStoreF80le (layer : Layer)
  /-- `dg_bar_x86g_amd64g_dirtyhelper_loadF80le_Lo` and `_Hi`. -/
  | dgBarLoadF80le (layer : Layer)
  /-- The helpers through which the code `storeShadowMemory` and `loadShadowMemory` emit
  moves `size` bytes into or out of a layer (`dg_shadow.c`, not in the repository). -/
  | shadowStore (layer : Layer) (size : Nat)
  | shadowLoad (layer : Layer) (size : Nat)
  deriving DecidableEq, Repr

/-- `IRDirty`: a call with a guard, arguments and an optional result temporary. -/
structure IRDirty where
  cee : IRCallee
  guard : IRExpr
  args : List IRExpr
  tmp : Option Nat

/-- `IRLoadGOp`, the widening applied by a guarded load. -/
inductive IRLoadGOp where
  | identV128 | ident64 | ident32 | u16to32 | s16to32 | u8to32 | s8to32
  deriving DecidableEq, Repr

/-- The type read from memory by a guarded load into a temporary of type `dstTy`. -/
def IRLoadGOp.loadType (dstTy : IRType) : IRLoadGOp → IRType
  | .identV128 | .ident64 | .ident32 => dstTy
  | .u16to32 | .s16to32 => .i16
  | .u8to32 | .s8to32 => .i8

/-- The widening operator of a guarded load, if any. -/
def IRLoadGOp.convert : IRLoadGOp → Option IROp
  | .identV128 | .ident64 | .ident32 => none
  | .u16to32 => some (.zext .i16 .i32)
  | .s16to32 => some (.sext .i16 .i32)
  | .u8to32 => some (.zext .i8 .i32)
  | .s8to32 => some (.sext .i8 .i32)

/-- `IRCAS`: single-element when `oldHi`, `expdHi` and `dataHi` are absent. -/
structure IRCAS where
  oldHi : Option Nat
  oldLo : Nat
  addr : IRExpr
  expdHi : Option IRExpr
  expdLo : IRExpr
  dataHi : Option IRExpr
  dataLo : IRExpr

/-- `IRStmt`. -/
inductive IRStmt where
  | noOp
  | imark
  | abiHint
  | put (offset : Nat) (data : IRExpr)
  | putI (descr : IRRegArray) (ix : IRExpr) (bias : Int) (data : IRExpr)
  | wrTmp (tmp : Nat) (data : IRExpr)
  | store (addr data : IRExpr)
  | storeG (addr data guard : IRExpr)
  | loadG (cvt : IRLoadGOp) (dst : Nat) (addr alt guard : IRExpr)
  | cas (details : IRCAS)
  | llsc (result : Nat) (addr : IRExpr) (storedata : Option IRExpr)
  | dirty (details : IRDirty)
  | mbe
  | exit (guard : IRExpr) (dst : IRConst)

/-- `IRSB`: the type environment (`tyenv->types`), the statements, and the expression
computing the next guest address when no exit is taken. -/
structure IRSB where
  tyenv : List IRType
  stmts : List IRStmt
  next : IRExpr

/-- `newIRTemp`: the next temporary, and the block with its type recorded. -/
def newIRTemp (sb : IRSB) (ty : IRType) : Nat × IRSB :=
  (sb.tyenv.length, { sb with tyenv := sb.tyenv ++ [ty] })

/-- `addStmtToIRSB`. -/
def addStmtToIRSB (sb : IRSB) (st : IRStmt) : IRSB :=
  { sb with stmts := sb.stmts ++ [st] }

@[simp] theorem newIRTemp_fst (sb : IRSB) (ty : IRType) :
    (newIRTemp sb ty).1 = sb.tyenv.length := rfl

@[simp] theorem newIRTemp_tyenv (sb : IRSB) (ty : IRType) :
    (newIRTemp sb ty).2.tyenv = sb.tyenv ++ [ty] := rfl

@[simp] theorem newIRTemp_stmts (sb : IRSB) (ty : IRType) :
    (newIRTemp sb ty).2.stmts = sb.stmts := rfl

@[simp] theorem addStmtToIRSB_tyenv (sb : IRSB) (st : IRStmt) :
    (addStmtToIRSB sb st).tyenv = sb.tyenv := rfl

@[simp] theorem addStmtToIRSB_stmts (sb : IRSB) (st : IRStmt) :
    (addStmtToIRSB sb st).stmts = sb.stmts ++ [st] := rfl

end Derivgrind
