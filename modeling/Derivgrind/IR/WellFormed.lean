import Derivgrind.IR.Syntax

/-!
# Derivgrind.IR.WellFormed

The parts of VEX's `sanityCheckIRSB` the instrumentations run into: a flat superblock
assigns each temporary once and reads a temporary only after a statement has assigned it,
and every unary operator is applied to an operand of the type the operator takes
(`IRExpr.unopsTyped`, the part of `tcExpr` for `Iex_Unop`). The checks are computable, so
that they can be run on the blocks an instrumentation produces.
-/

namespace Derivgrind

/-- The temporaries an expression reads. -/
def IRExpr.tmpsRead : IRExpr → List Nat
  | .const _ | .get _ _ => []
  | .rdTmp t => [t]
  | .getI _ a _ | .load _ a | .unop _ a => a.tmpsRead
  | .binop _ a b => a.tmpsRead ++ b.tmpsRead
  | .triop _ a b c => a.tmpsRead ++ b.tmpsRead ++ c.tmpsRead
  | .qop _ a b c d => a.tmpsRead ++ b.tmpsRead ++ c.tmpsRead ++ d.tmpsRead
  | .ite c a b => c.tmpsRead ++ a.tmpsRead ++ b.tmpsRead
  | .ccall _ _ _ args => (List.ofFn fun i => (args i).tmpsRead).flatten

/-- The temporaries a statement reads. -/
def IRStmt.tmpsRead : IRStmt → List Nat
  | .noOp | .imark | .abiHint | .mbe => []
  | .put _ data | .wrTmp _ data => data.tmpsRead
  | .putI _ ix _ data => ix.tmpsRead ++ data.tmpsRead
  | .store a d => a.tmpsRead ++ d.tmpsRead
  | .storeG a d g | .loadG _ _ a d g => a.tmpsRead ++ d.tmpsRead ++ g.tmpsRead
  | .cas c =>
    c.addr.tmpsRead ++ c.expdLo.tmpsRead ++ c.dataLo.tmpsRead ++
      (c.expdHi.elim [] IRExpr.tmpsRead) ++ (c.dataHi.elim [] IRExpr.tmpsRead)
  | .llsc _ a sd => a.tmpsRead ++ sd.elim [] IRExpr.tmpsRead
  | .dirty d => d.guard.tmpsRead ++ (d.args.map IRExpr.tmpsRead).flatten
  | .exit g _ => g.tmpsRead

/-- The temporaries a statement assigns. -/
def IRStmt.tmpsWritten : IRStmt → List Nat
  | .wrTmp t _ | .loadG _ t _ _ _ | .llsc t _ _ => [t]
  | .cas c => c.oldLo :: c.oldHi.toList
  | .dirty d => d.tmp.toList
  | _ => []

/-- Single assignment, given the temporaries assigned so far: every statement reads only
assigned temporaries and assigns only fresh ones. -/
def assignedBeforeUse : List Nat → List IRStmt → Bool
  | _, [] => true
  | assigned, st :: sts =>
    st.tmpsRead.all assigned.contains && st.tmpsWritten.all (!assigned.contains ·) &&
      assignedBeforeUse (assigned ++ st.tmpsWritten) sts

/-- The temporaries of a block are assigned once and before any use, `next` included. -/
def IRSB.tmpsAssignedBeforeUse (sb : IRSB) : Bool :=
  assignedBeforeUse [] sb.stmts &&
    sb.next.tmpsRead.all (sb.stmts.map IRStmt.tmpsWritten).flatten.contains

/-- The operand type `typeOfPrimop` gives the unary operators whose name fixes it: negation
and absolute value of a shape, and the conversions `Iop_<src>to<dst>`, `Iop_<src>HIto<dst>`,
`Iop_<src>Uto<dst>`, `Iop_<src>Sto<dst>` and `Iop_Reinterp<src>as<dst>`. -/
def IROp.unopArgType : IROp → Option IRType
  | .neg s | .abs s => some s.type
  | .reinterp src _ | .lo src _ | .hi src _ | .zext src _ | .sext src _ => some src
  | _ => none

/-- `tcExpr` on one node, for `Iex_Unop`: the operand has the type the operator takes. -/
def IRExpr.unopTyped (tyenv : List IRType) : IRExpr → Prop
  | .unop op a => op.unopArgType = none ∨ op.unopArgType = some (a.type tyenv)
  | _ => True

instance IRExpr.decUnopTyped (tyenv : List IRType) : DecidablePred (IRExpr.unopTyped tyenv)
  | .unop _ _ => instDecidableOr
  | .const _ | .rdTmp _ | .get _ _ | .getI _ _ _ | .load _ _ | .binop _ _ _ | .triop _ _ _ _
  | .qop _ _ _ _ _ | .ite _ _ _ | .ccall _ _ _ _ => instDecidableTrue

/-- Every unary operator of the expression is applied to an operand of its type. -/
def IRExpr.unopsTyped (tyenv : List IRType) (e : IRExpr) : Prop := e.all (IRExpr.unopTyped tyenv)

instance (tyenv : List IRType) (e : IRExpr) : Decidable (e.unopsTyped tyenv) :=
  inferInstanceAs (Decidable (e.all _))

end Derivgrind
