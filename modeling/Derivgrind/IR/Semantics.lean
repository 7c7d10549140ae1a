import Derivgrind.Bytes

/-!
# Derivgrind.IR.Semantics

A big-step meaning for superblocks, generic in the values they compute with.

An `Interp V` says what the primitive operators, constants and helper calls of the guest
compute on values of type `V`, how a value is laid out in bytes, and when it counts as
true. The machine state holds the temporaries, the guest state and client memory as byte
stores, the tool's own state (shadow maps, tape) and the exit taken so far. The tool's
helpers are given separately: they see their arguments and the tool state only.

Keeping `V` and the operators abstract lets the non-interference results hold for every
choice of them, while the tangent result instantiates them with exact arithmetic
(`Derivgrind.IR.Exact`).
-/

namespace Derivgrind

/-- What the guest's operators, constants and helpers compute on values of type `V`. -/
structure Interp (V : Type) where
  const : IRConst → V
  unop : IROp → V → V
  binop : IROp → V → V → V
  triop : IROp → V → V → V → V
  qop : IROp → V → V → V → V → V
  ccall : String → List V → V
  /-- Whether a guard or condition of type `Ity_I1` holds. -/
  isTrue : V → Bool
  toAddr : V → Addr
  toInt : V → Int
  /-- The value a type's bytes stand for, and the bytes a value is stored as. -/
  decode : IRType → List UInt8 → V
  encode : IRType → V → List UInt8
  /-- A dirty helper of the guest: result, new guest state and new memory. -/
  guestCall : String → List V → (Nat → UInt8) → (Addr → UInt8) →
    V × (Nat → UInt8) × (Addr → UInt8)

/-- The machine state a superblock runs in. -/
structure State (V T : Type) where
  tmps : Nat → V
  guest : Nat → UInt8
  mem : Addr → UInt8
  tool : T
  exit : Option IRConst

/-- The guest offset of the element a `GetI`/`PutI` addresses: the index is taken
circularly, `(ix + bias) mod nElems`. -/
def IRRegArray.elemOffset (d : IRRegArray) (ix bias : Int) : Nat :=
  d.base + ((ix + bias) % d.nElems).toNat * sizeofIRType d.elemTy

/-- The element a `GetI`/`PutI` addresses lies inside the array. -/
theorem IRRegArray.elemOffset_add_le (d : IRRegArray) (hn : 0 < d.nElems) (ix bias : Int) :
    d.elemOffset ix bias + sizeofIRType d.elemTy ≤ d.base + d.nElems * sizeofIRType d.elemTy := by
  have hlt : ((ix + bias) % (d.nElems : Int)).toNat < d.nElems := by
    have := Int.emod_lt_of_pos (ix + bias) (Int.ofNat_pos.mpr hn)
    have := Int.emod_nonneg (ix + bias) (by omega : (d.nElems : Int) ≠ 0)
    omega
  have := Nat.mul_le_mul_right (sizeofIRType d.elemTy) hlt
  rw [Nat.succ_mul] at this
  simp only [IRRegArray.elemOffset]
  omega

/-- Adding `k` bytes to the base and to the bias of a register array whose number of elements
divides `k` moves every element it addresses by `k` bytes. -/
theorem IRRegArray.elemOffset_shift (d : IRRegArray) {k : Nat} (h : d.nElems ∣ k) (ix bias : Int) :
    { d with base := d.base + k }.elemOffset ix (bias + k) = d.elemOffset ix bias + k := by
  obtain ⟨m, rfl⟩ := h
  have : (ix + (bias + ((d.nElems * m : Nat) : Int))) % (d.nElems : Int) =
      (ix + bias) % (d.nElems : Int) := by
    rw [Nat.cast_mul, ← add_assoc, Int.add_mul_emod_self_left]
  simp only [IRRegArray.elemOffset, this]
  omega

variable {V T : Type} (I : Interp V)

/-- Evaluate an expression. Only temporaries, the guest state and memory are read. -/
def eval (s : State V T) : IRExpr → V
  | .const c => I.const c
  | .rdTmp t => s.tmps t
  | .get off ty => I.decode ty (readBytes s.guest off (sizeofIRType ty))
  | .getI d ix bias =>
    I.decode d.elemTy
      (readBytes s.guest (d.elemOffset (I.toInt (eval s ix)) bias) (sizeofIRType d.elemTy))
  | .load ty addr => I.decode ty (readBytes s.mem (I.toAddr (eval s addr)) (sizeofIRType ty))
  | .unop op a => I.unop op (eval s a)
  | .binop op a b => I.binop op (eval s a) (eval s b)
  | .triop op a b c => I.triop op (eval s a) (eval s b) (eval s c)
  | .qop op a b c d => I.qop op (eval s a) (eval s b) (eval s c) (eval s d)
  | .ite c t f => if I.isTrue (eval s c) then eval s t else eval s f
  | .ccall cee _ n args => I.ccall cee (List.ofFn fun i : Fin n => eval s (args i))

/-- Assign the result of a call to its temporary, if it has one. -/
def setTmp (tmps : Nat → V) : Option Nat → V → Nat → V
  | none, _ => tmps
  | some t, v => Function.update tmps t v

/-- The tool's helpers: result and new tool state. -/
abbrev ToolCall (V T : Type) := IRCallee → List V → T → V × T

variable (tc : ToolCall V T) (tyenv : List IRType)

/-- A dirty call whose guard holds. -/
def callDirty (s : State V T) (d : IRDirty) : State V T :=
  let args := d.args.map (eval I s)
  match d.cee with
  | .guest name =>
    let r := I.guestCall name args s.guest s.mem
    { s with tmps := setTmp s.tmps d.tmp r.1, guest := r.2.1, mem := r.2.2 }
  | cee =>
    let r := tc cee args s.tool
    { s with tmps := setTmp s.tmps d.tmp r.1, tool := r.2 }

/-- A compare-and-swap. The high element, when present, sits right after the low one. -/
def execCAS (s : State V T) (c : IRCAS) : State V T :=
  let ty := c.expdLo.type tyenv
  let n := sizeofIRType ty
  let aLo := I.toAddr (eval I s c.addr)
  let aHi := aLo + BitVec.ofNat 64 n
  let oldLo := readBytes s.mem aLo n
  let oldHi := readBytes s.mem aHi n
  let expdLo := I.encode ty (eval I s c.expdLo)
  let dataLo := I.encode ty (eval I s c.dataLo)
  match c.oldHi, c.expdHi, c.dataHi with
  | some tHi, some eHi, some dHi =>
    let tmps := Function.update (Function.update s.tmps c.oldLo (I.decode ty oldLo))
      tHi (I.decode ty oldHi)
    let dataHi := I.encode ty (eval I s dHi)
    if oldLo = expdLo ∧ oldHi = I.encode ty (eval I s eHi) then
      { s with tmps := tmps, mem := writeBytes (writeBytes s.mem aLo dataLo) aHi dataHi }
    else { s with tmps := tmps }
  | _, _, _ =>
    let tmps := Function.update s.tmps c.oldLo (I.decode ty oldLo)
    if oldLo = expdLo then { s with tmps := tmps, mem := writeBytes s.mem aLo dataLo }
    else { s with tmps := tmps }

/-- Execute one statement. A store-conditional always succeeds. A dirty call whose guard
fails leaves its temporary holding the `0x55` bytes VEX specifies. -/
def execStmt (s : State V T) : IRStmt → State V T
  | .noOp | .imark | .abiHint | .mbe => s
  | .put off data =>
    { s with guest := writeBytes s.guest off (I.encode (data.type tyenv) (eval I s data)) }
  | .putI d ix bias data =>
    let off := d.elemOffset (I.toInt (eval I s ix)) bias
    { s with guest := writeBytes s.guest off (I.encode d.elemTy (eval I s data)) }
  | .wrTmp t data => { s with tmps := Function.update s.tmps t (eval I s data) }
  | .store addr data =>
    let bs := I.encode (data.type tyenv) (eval I s data)
    { s with mem := writeBytes s.mem (I.toAddr (eval I s addr)) bs }
  | .storeG addr data guard =>
    let bs := I.encode (data.type tyenv) (eval I s data)
    if I.isTrue (eval I s guard) then { s with mem := writeBytes s.mem (I.toAddr (eval I s addr)) bs }
    else s
  | .loadG cvt dst addr alt guard =>
    let ty := cvt.loadType (tyenv.getD dst .i64)
    let raw := I.decode ty (readBytes s.mem (I.toAddr (eval I s addr)) (sizeofIRType ty))
    let v := match cvt.convert with
      | some op => I.unop op raw
      | none => raw
    let v := if I.isTrue (eval I s guard) then v else eval I s alt
    { s with tmps := Function.update s.tmps dst v }
  | .cas c => execCAS I tyenv s c
  | .llsc result addr none =>
    let ty := tyenv.getD result .i64
    let v := I.decode ty (readBytes s.mem (I.toAddr (eval I s addr)) (sizeofIRType ty))
    { s with tmps := Function.update s.tmps result v }
  | .llsc result addr (some data) =>
    let bs := I.encode (data.type tyenv) (eval I s data)
    { s with mem := writeBytes s.mem (I.toAddr (eval I s addr)) bs,
             tmps := Function.update s.tmps result (I.const (.u1 true)) }
  | .dirty d =>
    if I.isTrue (eval I s d.guard) then callDirty I tc s d
    else
      let ty := d.tmp.elim .i64 fun t => tyenv.getD t .i64
      let v := I.decode ty (List.replicate (sizeofIRType ty) 0x55)
      { s with tmps := setTmp s.tmps d.tmp v }
  | .exit guard dst => if I.isTrue (eval I s guard) then { s with exit := some dst } else s

/-- Execute a statement list; once an exit has been taken the rest is skipped. -/
def execStmts : State V T → List IRStmt → State V T
  | s, [] => s
  | s, st :: sts =>
    match s.exit with
    | some _ => s
    | none => execStmts (execStmt I tc tyenv s st) sts

@[simp] theorem execStmts_nil (s : State V T) : execStmts I tc tyenv s [] = s := rfl

theorem execStmts_cons_of_exit {s : State V T} {dst : IRConst} (h : s.exit = some dst)
    (st : IRStmt) (sts : List IRStmt) : execStmts I tc tyenv s (st :: sts) = s := by
  simp [execStmts, h]

theorem execStmts_of_exit {s : State V T} {dst : IRConst} (h : s.exit = some dst) :
    ∀ sts : List IRStmt, execStmts I tc tyenv s sts = s
  | [] => rfl
  | st :: sts => execStmts_cons_of_exit I tc tyenv h st sts

theorem execStmts_cons_of_running {s : State V T} (h : s.exit = none)
    (st : IRStmt) (sts : List IRStmt) :
    execStmts I tc tyenv s (st :: sts) = execStmts I tc tyenv (execStmt I tc tyenv s st) sts := by
  simp [execStmts, h]

theorem execStmts_append (s : State V T) (l₁ l₂ : List IRStmt) :
    execStmts I tc tyenv s (l₁ ++ l₂) = execStmts I tc tyenv (execStmts I tc tyenv s l₁) l₂ := by
  induction l₁ generalizing s with
  | nil => rfl
  | cons st sts ih =>
    cases h : s.exit with
    | some dst =>
      simp only [List.cons_append, execStmts_cons_of_exit I tc tyenv h]
      cases l₂ with
      | nil => rfl
      | cons st' sts' => exact (execStmts_cons_of_exit I tc tyenv h _ _).symm
    | none => simp only [List.cons_append, execStmts_cons_of_running I tc tyenv h, ih]

/-- Where control goes at the end of the block: the exit taken, or `next`. -/
def jumpTarget (sb : IRSB) (s : State V T) : Option IRConst ⊕ V :=
  match s.exit with
  | some dst => .inl (some dst)
  | none => .inr (eval I s sb.next)

end Derivgrind
