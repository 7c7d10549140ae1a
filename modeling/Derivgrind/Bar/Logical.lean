import Derivgrind.Bar.Record
import Derivgrind.IR.Bits

/-!
# Derivgrind.Bar.Logical

What the rule `DG_HANDLE_LOGICAL` of `record_expr` computes on bits. For `And`, `Or` and
`Xor` of 32, 64, 128 and 256 bits it calls the helper `dg_logical_<op>64` on 64-bit chunks:
32-bit operands are zero-extended and the low half of the helper's result is kept, 64-bit
operands go to the helper as they are, and wider operands are cut into 64-bit chunks whose
results are put back in the same places (`dgHandleLogical_chunks`).

The helper is any function; it returns a `ULong`, so its results have 64 bits. The words are
those of `bitsInterp`, where `Iop_V128to64`, `Iop_V128HIto64` and `Iop_V256to64_<k>` select
chunks and `Iop_64HLtoV128` and `Iop_64x4toV256` put them back, most significant first.
-/

namespace Derivgrind

/-! ## 64-bit chunks of a word -/

/-- Bits `64k .. 64k+63` of a word. -/
def chunk64 (w k : Nat) : Nat := w / 2 ^ (64 * k) % 2 ^ 64

@[simp] theorem chunk64_zero (w : Nat) : chunk64 w 0 = w % 2 ^ 64 := by
  simp [chunk64]

/-- Putting a word `hi` above a 64-bit `lo` shifts the chunks of `hi` up by one. -/
theorem chunk64_mul_add_succ (hi lo k : Nat) (hlo : lo < 2 ^ 64) :
    chunk64 (hi * 2 ^ 64 + lo) (k + 1) = chunk64 hi k := by
  have hdiv : (hi * 2 ^ 64 + lo) / 2 ^ 64 = hi := by
    rw [Nat.add_comm, Nat.add_mul_div_right _ _ (by positivity), Nat.div_eq_of_lt hlo,
      Nat.zero_add]
  rw [chunk64, chunk64, Nat.mul_succ, Nat.pow_add, Nat.mul_comm (2 ^ (64 * k)),
    ← Nat.div_div_eq_div_mul, hdiv]

/-- The lowest chunk of `hi * 2^64 + lo` is the 64-bit `lo`. -/
theorem chunk64_mul_add_zero (hi lo : Nat) (hlo : lo < 2 ^ 64) :
    chunk64 (hi * 2 ^ 64 + lo) 0 = lo := by
  rw [chunk64_zero, Nat.mul_comm, Nat.mul_add_mod, Nat.mod_eq_of_lt hlo]

theorem chunk64_of_lt {w : Nat} (h : w < 2 ^ 64) : chunk64 w 0 = w := by
  rw [chunk64_zero, Nat.mod_eq_of_lt h]

theorem mul_add_lt_of_lt {hi lo n : Nat} (hhi : hi < 2 ^ n) (hlo : lo < 2 ^ 64) :
    hi * 2 ^ 64 + lo < 2 ^ (n + 64) := by
  rw [Nat.pow_add]
  have := Nat.mul_le_mul_right (2 ^ 64) (Nat.succ_le_of_lt hhi)
  rw [Nat.succ_mul] at this
  omega

/-! ## The rule on bits -/

section
variable {T : Type} (ext : Interp Nat) (s : State Nat T)

theorem eval_logicalCall (name : String) (a1 b1 a2 b2 : IRExpr) :
    eval (bitsInterp ext) s (logicalCall name a1 b1 a2 b2) =
      ext.ccall name [eval (bitsInterp ext) s a1, eval (bitsInterp ext) s b1,
        eval (bitsInterp ext) s a2, eval (bitsInterp ext) s b2] := by
  simp [logicalCall, eval, List.ofFn_succ]

/-- The helper applied to chunk `k` of the two operands and their tangents. -/
def logicalChunk (name : String) (arg1 arg2 d1 d2 : IRExpr) (k : Nat) : Nat :=
  ext.ccall name [chunk64 (eval (bitsInterp ext) s arg1) k, chunk64 (eval (bitsInterp ext) s d1) k,
    chunk64 (eval (bitsInterp ext) s arg2) k, chunk64 (eval (bitsInterp ext) s d2) k]

variable {name : String} (arg1 arg2 d1 d2 : IRExpr)

theorem eval_dgHandleLogical_i32 :
    (dgHandleLogical name arg1 arg2 d1 d2 .i32).map (eval (bitsInterp ext) s) =
      some (ext.ccall name [eval (bitsInterp ext) s arg1, eval (bitsInterp ext) s d1,
        eval (bitsInterp ext) s arg2, eval (bitsInterp ext) s d2] % 2 ^ 32) := by
  simp [dgHandleLogical, eval_logicalCall, eval, bitsUnop, bitsBinop, bitsConst,
    IRType.intWidth, sizeofIRType]

theorem eval_dgHandleLogical_i64 :
    (dgHandleLogical name arg1 arg2 d1 d2 .i64).map (eval (bitsInterp ext) s) =
      some (ext.ccall name [eval (bitsInterp ext) s arg1, eval (bitsInterp ext) s d1,
        eval (bitsInterp ext) s arg2, eval (bitsInterp ext) s d2]) := by
  simp [dgHandleLogical, eval_logicalCall]

theorem eval_dgHandleLogical_v128 :
    (dgHandleLogical name arg1 arg2 d1 d2 .v128).map (eval (bitsInterp ext) s) =
      some (logicalChunk ext s name arg1 arg2 d1 d2 1 * 2 ^ 64 +
        logicalChunk ext s name arg1 arg2 d1 d2 0) := by
  simp [dgHandleLogical, eval_logicalCall, eval, bitsUnop, bitsBinop, logicalChunk, chunk64,
    IRType.intWidth, sizeofIRType]

theorem eval_dgHandleLogical_v256 :
    (dgHandleLogical name arg1 arg2 d1 d2 .v256).map (eval (bitsInterp ext) s) =
      some (((logicalChunk ext s name arg1 arg2 d1 d2 3 * 2 ^ 64 +
        logicalChunk ext s name arg1 arg2 d1 d2 2) * 2 ^ 64 +
        logicalChunk ext s name arg1 arg2 d1 d2 1) * 2 ^ 64 +
        logicalChunk ext s name arg1 arg2 d1 d2 0) := by
  simp [dgHandleLogical, eval_logicalCall, eval, bitsUnop, bitsQop, logicalChunk, chunk64,
    show ((3 : Fin 4) : Nat) = 3 from rfl]

end

/-- The operators `DG_HANDLE_LOGICAL` is instantiated for, with their helpers. -/
theorem recordExprBinop_logical {op : IRType → IROp} {name : String}
    (hop : (op, name) ∈ [(IROp.and, "dg_logical_and64"), (IROp.or, "dg_logical_or64"),
      (IROp.xor, "dg_logical_xor64")]) (arg1 arg2 d1 d2 : IRExpr) (ty : IRType) :
    recordExprBinop arg1 arg2 d1 d2 (op ty) = dgHandleLogical name arg1 arg2 d1 d2 ty := by
  simp only [List.mem_cons, Prod.mk.injEq, List.mem_nil_iff, or_false] at hop
  rcases hop with ⟨rfl, rfl⟩ | ⟨rfl, rfl⟩ | ⟨rfl, rfl⟩ <;> rfl

/-- **`DG_HANDLE_LOGICAL` works chunk by chunk.** For `And`, `Or` and `Xor`, whatever the
operands, their tangents and the helper `dg_logical_<op>64` (a function to 64-bit words):
on 32 bits the rule's value is the low half of the helper at the zero-extended words (a
zero-extension does not change the number a word spells); on 64 bits it is the helper; on
128 and 256 bits it has 128 and 256 bits, and its chunk `k` is the helper at chunk `k` of
each operand and tangent. -/
theorem dgHandleLogical_chunks {T : Type} (ext : Interp Nat) (s : State Nat T)
    (arg1 arg2 d1 d2 : IRExpr) (op : IRType → IROp) (name : String)
    (hop : (op, name) ∈ [(IROp.and, "dg_logical_and64"), (IROp.or, "dg_logical_or64"),
      (IROp.xor, "dg_logical_xor64")])
    (hret : ∀ args, ext.ccall name args < 2 ^ 64) :
    let v := eval (bitsInterp ext) s
    let helper := fun w1 w2 w3 w4 => ext.ccall name [w1, w2, w3, w4]
    (∃ r, recordExprBinop arg1 arg2 d1 d2 (op .i32) = some r ∧
      v r = helper (v arg1) (v d1) (v arg2) (v d2) % 2 ^ 32) ∧
    (∃ r, recordExprBinop arg1 arg2 d1 d2 (op .i64) = some r ∧
      v r = helper (v arg1) (v d1) (v arg2) (v d2)) ∧
    (∃ r, recordExprBinop arg1 arg2 d1 d2 (op .v128) = some r ∧ v r < 2 ^ 128 ∧
      ∀ k < 2, chunk64 (v r) k =
        helper (chunk64 (v arg1) k) (chunk64 (v d1) k) (chunk64 (v arg2) k) (chunk64 (v d2) k)) ∧
    (∃ r, recordExprBinop arg1 arg2 d1 d2 (op .v256) = some r ∧ v r < 2 ^ 256 ∧
      ∀ k < 4, chunk64 (v r) k =
        helper (chunk64 (v arg1) k) (chunk64 (v d1) k) (chunk64 (v arg2) k) (chunk64 (v d2) k)) := by
  dsimp only
  simp only [recordExprBinop_logical hop]
  have hc : ∀ k, logicalChunk ext s name arg1 arg2 d1 d2 k < 2 ^ 64 := fun k => hret _
  refine ⟨Option.map_eq_some'.1 (eval_dgHandleLogical_i32 ..),
    Option.map_eq_some'.1 (eval_dgHandleLogical_i64 ..), ?_, ?_⟩
  · obtain ⟨r, hr, hv⟩ := Option.map_eq_some'.1 (eval_dgHandleLogical_v128 ext s arg1 arg2 d1 d2)
    refine ⟨r, hr, hv ▸ mul_add_lt_of_lt (hc 1) (hc 0), fun k hk => ?_⟩
    rw [hv]
    interval_cases k <;> simp (disch := exact hret _) only [chunk64_mul_add_succ,
      chunk64_mul_add_zero, chunk64_of_lt, logicalChunk]
  · obtain ⟨r, hr, hv⟩ := Option.map_eq_some'.1 (eval_dgHandleLogical_v256 ext s arg1 arg2 d1 d2)
    refine ⟨r, hr, hv ▸ mul_add_lt_of_lt (n := 192)
      (mul_add_lt_of_lt (n := 128) (mul_add_lt_of_lt (n := 64) (hc 3) (hc 2)) (hc 1)) (hc 0),
      fun k hk => ?_⟩
    rw [hv]
    interval_cases k <;> simp (disch := exact hret _) only [chunk64_mul_add_succ,
      chunk64_mul_add_zero, chunk64_of_lt, logicalChunk]

/-- Bits whose helpers compute the bitwise `And` of their first and third arguments, the two
operands, in 64 bits. -/
def Interp.andBits : Interp Nat :=
  { Interp.inertBits with
    ccall := fun _ args => (match args with | [x, _, y, _] => x &&& y | _ => 0) % 2 ^ 64 }

/-- `And` of four temporaries whose 64-bit chunks differ, with a helper that computes the
`And` of the operands' chunks. -/
theorem dgHandleLogical_chunks_and :
    ((IROp.and, "dg_logical_and64") ∈ [(IROp.and, "dg_logical_and64"),
      (IROp.or, "dg_logical_or64"), (IROp.xor, "dg_logical_xor64")] ∧
      ∀ args, Interp.andBits.ccall "dg_logical_and64" args < 2 ^ 64) ∧
    let v := eval (bitsInterp Interp.andBits)
      (⟨fun t => t * 0x4000000000000000300000000000000020000000000000001 + 2 ^ 63, fun _ => 0,
        fun _ => 0, (), none⟩ : State Nat Unit)
    let helper := fun w1 w2 w3 w4 => Interp.andBits.ccall "dg_logical_and64" [w1, w2, w3, w4]
    let (arg1, arg2, d1, d2) := (IRExpr.rdTmp 1, IRExpr.rdTmp 2, IRExpr.rdTmp 3, IRExpr.rdTmp 4)
    (∃ r, recordExprBinop arg1 arg2 d1 d2 (IROp.and .i32) = some r ∧
      v r = helper (v arg1) (v d1) (v arg2) (v d2) % 2 ^ 32) ∧
    (∃ r, recordExprBinop arg1 arg2 d1 d2 (IROp.and .i64) = some r ∧
      v r = helper (v arg1) (v d1) (v arg2) (v d2)) ∧
    (∃ r, recordExprBinop arg1 arg2 d1 d2 (IROp.and .v128) = some r ∧ v r < 2 ^ 128 ∧
      ∀ k < 2, chunk64 (v r) k =
        helper (chunk64 (v arg1) k) (chunk64 (v d1) k) (chunk64 (v arg2) k) (chunk64 (v d2) k)) ∧
    (∃ r, recordExprBinop arg1 arg2 d1 d2 (IROp.and .v256) = some r ∧ v r < 2 ^ 256 ∧
      ∀ k < 4, chunk64 (v r) k =
        helper (chunk64 (v arg1) k) (chunk64 (v d1) k) (chunk64 (v arg2) k) (chunk64 (v d2) k)) :=
  have hop : (IROp.and, "dg_logical_and64") ∈ [(IROp.and, "dg_logical_and64"),
      (IROp.or, "dg_logical_or64"), (IROp.xor, "dg_logical_xor64")] := List.mem_cons_self _ _
  have hret : ∀ args, Interp.andBits.ccall "dg_logical_and64" args < 2 ^ 64 :=
    fun _ => Nat.mod_lt _ (Nat.two_pow_pos 64)
  ⟨⟨hop, hret⟩, dgHandleLogical_chunks Interp.andBits _ (.rdTmp 1) (.rdTmp 2) (.rdTmp 3)
    (.rdTmp 4) IROp.and _ hop hret⟩

end Derivgrind
