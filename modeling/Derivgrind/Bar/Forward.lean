import Derivgrind.Bar.LinExprOps

/-!
# Derivgrind.Bar.Forward

What the arithmetic of `dg_bar.c` on linearized expressions is for. Each entry of the buffer
stands for a value with its gradient over the identifiers (`LinExpr.dual`), and each of
`addLinExpr`, `subLinExpr`, `mulLinExpr` and `divLinExpr` should put in a new entry the value
of its operation and the gradient the rules of calculus give (`LinOp.dual`): forward-mode
differentiation.

The four functions are one shape with parameters: a linear combination of the operands'
dependencies with two factors, then the value (`LinOp.call_eq`). For the sum, difference and
product the factors are the partial derivatives (`LinOp.dual_eq`); for the quotient they are
their negation (`LinOp.div_negates`).

A straight-line program is a list of instructions `(op, i, j)`, each calling `op` on entries
`i` and `j` of the buffer (`runLinOps`); its meaning is the same program on values with
gradients (`dualRun`). `HoldsDuals` says that the live entries stand for a list of those,
with given dependency counts. On a buffer with room for every result, where no result gets
more than `MAX_NDEP` dependencies (`Fits`), a program leaves the entries the code's rules
give (`runLinOps_recorded`, with `recordedRun`), and a program of sums, differences and
products computes its meaning, entry for entry (`runLinOps_dual`).
-/

namespace Derivgrind

variable {K : Type} [Field K]

/-! ## The four operations as one -/

/-- `addLinExpr`, `subLinExpr`, `mulLinExpr` and `divLinExpr`. -/
inductive LinOp
  | add
  | sub
  | mul
  | div
  deriving DecidableEq, Repr

namespace LinOp

/-- The function of `dg_bar.c` for the operation. -/
def call : LinOp → LinPtr → LinPtr → LinExprHeap K →
    Except LinExprFault (LinExprHeap K × LinPtr)
  | .add => addLinExpr
  | .sub => subLinExpr
  | .mul => mulLinExpr
  | .div => divLinExpr

/-- The factors in front of `a` and of `b` that the operation passes to
`linearCombinationOfDependencies`, from the values `x` of `a` and `y` of `b`. -/
def factors : LinOp → K → K → K × K
  | .add, _, _ => (1, 1)
  | .sub, _, _ => (1, -1)
  | .mul, x, y => (y, x)
  | .div, x, y => (-1 / y, x / (y * y))

/-- The value the operation sets. -/
def value : LinOp → K → K → K
  | .add, x, y => x + y
  | .sub, x, y => x - y
  | .mul, x, y => x * y
  | .div, x, y => x / y

variable {h : LinExprHeap K} {a b : LinPtr} {ea eb : LinExpr K}

/-- Each operation is the linear combination with its factors, then its value. -/
theorem call_eq (op : LinOp) (hea : h.read a = .ok ea) (heb : h.read b = .ok eb) :
    op.call a b h = (linearCombinationOfDependencies (op.factors ea.value eb.value).1 a
      (op.factors ea.value eb.value).2 b h >>= setValue op.value a b) := by
  cases op
  case add | sub => rfl
  case mul | div => simp only [call, mulLinExpr, divLinExpr, hea, heb, except_ok_bind]; rfl

/-- Forward mode: the value of the operation on `(x, dx)` and `(y, dy)` and its gradient by
the sum, difference, product and quotient rules. -/
def dual : LinOp → K × (Nat → K) → K × (Nat → K) → K × (Nat → K)
  | .add, (x, dx), (y, dy) => (x + y, fun id => dx id + dy id)
  | .sub, (x, dx), (y, dy) => (x - y, fun id => dx id - dy id)
  | .mul, (x, dx), (y, dy) => (x * y, fun id => y * dx id + x * dy id)
  | .div, (x, dx), (y, dy) => (x / y, fun id => (y * dx id - x * dy id) / y ^ 2)

/-- What the code records from `(x, dx)` and `(y, dy)`: its value, and the gradients combined
with its factors. -/
def recorded (op : LinOp) (u v : K × (Nat → K)) : K × (Nat → K) :=
  (op.value u.1 v.1, fun id => (op.factors u.1 v.1).1 * u.2 id + (op.factors u.1 v.1).2 * v.2 id)

/-- For the sum, difference and product the factors are the partial derivatives. -/
theorem dual_eq {op : LinOp} (hop : op ≠ .div) (u v : K × (Nat → K)) :
    op.recorded u v = op.dual u v := by
  obtain ⟨x, dx⟩ := u
  obtain ⟨y, dy⟩ := v
  cases op
  case div => exact absurd rfl hop
  all_goals exact Prod.ext rfl (funext fun _ => by
    simp only [recorded, factors, dual, one_mul, neg_one_mul, ← sub_eq_add_neg])

/-- For the quotient the factors are the partial derivatives negated: the recorded gradient is
the negation of the quotient rule's. -/
theorem div_negates (x y : K) (dx dy : Nat → K) (hy : y ≠ 0) :
    LinOp.div.recorded (x, dx) (y, dy) =
      ((LinOp.div.dual (x, dx) (y, dy)).1, fun id => -(LinOp.div.dual (x, dx) (y, dy)).2 id) := by
  refine Prod.ext rfl (funext fun _ => ?_)
  simp only [recorded, factors, dual]
  rw [sq, sub_div, mul_div_mul_left _ _ hy]
  ring

end LinOp

/-- What an entry stands for: its value and its gradient. -/
def LinExpr.dual (e : LinExpr K) : K × (Nat → K) := (e.value, fun id => gradient e.deps id)

section Step
variable {h : LinExprHeap K} {a b : LinPtr} {ea eb : LinExpr K}

/-- With room and operands that fit, an operation appends an entry with `a->ndep + b->ndep`
dependencies that stands for what the code records from the operands. -/
theorem LinOp.call_appends (op : LinOp) (hi : h.Inv) (hroom : h.nLinexpr < h.maxLinexpr)
    (ha : h.Live a) (hb : h.Live b) (hea : h.read a = .ok ea) (heb : h.read b = .ok eb)
    (hfit : ea.ndep + eb.ndep ≤ maxNdep) :
    ∃ h' r, op.call a b h = .ok (h', ⟨h.alloc, h.nLinexpr⟩) ∧ h.Appends h' ∧
      h'.read ⟨h.alloc, h.nLinexpr⟩ = .ok r ∧ r.ndep = ea.ndep + eb.ndep ∧
      r.dual = op.recorded ea.dual eb.dual := by
  obtain ⟨h', r, hop, happ, hr, hn, hv, hg⟩ := linearCombination_setValue_appends hi hroom ha hb
    hea heb hfit (op.factors ea.value eb.value).1 (op.factors ea.value eb.value).2 op.value
  exact ⟨h', r, (op.call_eq hea heb).trans hop, happ, hr, hn, Prod.ext hv (funext hg)⟩

end Step

/-! ## Straight-line programs -/

/-- A straight-line program on the buffer: each instruction `(op, i, j)` calls `op` on entries
`i` and `j` of the current allocation, and the result goes to the next entry. -/
def runLinOps : List (LinOp × Nat × Nat) → LinExprHeap K → Except LinExprFault (LinExprHeap K)
  | [], h => .ok h
  | (op, i, j) :: prog, h => do
    let (h', _) ← op.call ⟨h.alloc, i⟩ ⟨h.alloc, j⟩ h
    runLinOps prog h'

/-- The program's meaning: the same instructions on values with gradients. -/
def dualRun : List (LinOp × Nat × Nat) → List (K × (Nat → K)) → List (K × (Nat → K))
  | [], vs => vs
  | (op, i, j) :: prog, vs => dualRun prog (vs ++ [op.dual (vs.getD i 0) (vs.getD j 0)])

/-- The same instructions as the code records them: each appends `op.recorded` of its
operands. -/
def recordedRun : List (LinOp × Nat × Nat) → List (K × (Nat → K)) → List (K × (Nat → K))
  | [], vs => vs
  | (op, i, j) :: prog, vs =>
    recordedRun prog (vs ++ [op.recorded (vs.getD i 0) (vs.getD j 0)])

/-- Without a division the code's records are the program's meaning. -/
theorem recordedRun_eq_dualRun (prog : List (LinOp × Nat × Nat)) (hdiv : ∀ c ∈ prog, c.1 ≠ .div)
    (vs : List (K × (Nat → K))) : recordedRun prog vs = dualRun prog vs := by
  induction prog generalizing vs with
  | nil => rfl
  | cons c prog ih =>
    obtain ⟨op, i, j⟩ := c
    rw [recordedRun, dualRun, LinOp.dual_eq (hdiv _ (List.mem_cons_self _ _))]
    exact ih (fun c hc => hdiv c (List.mem_cons_of_mem _ hc)) _

/-- The dependency counts of the entries: each result has `a->ndep + b->ndep`. -/
def ndepRun : List (LinOp × Nat × Nat) → List Nat → List Nat
  | [], ns => ns
  | (_, i, j) :: prog, ns => ndepRun prog (ns ++ [ns.getD i 0 + ns.getD j 0])

/-- Each instruction reads earlier entries, and its result has at most `MAX_NDEP`
dependencies. -/
def Fits : List (LinOp × Nat × Nat) → List Nat → Prop
  | [], _ => True
  | (_, i, j) :: prog, ns => i < ns.length ∧ j < ns.length ∧
      ns.getD i 0 + ns.getD j 0 ≤ maxNdep ∧ Fits prog (ns ++ [ns.getD i 0 + ns.getD j 0])

instance Fits.decidable : (prog : List (LinOp × Nat × Nat)) → (ns : List Nat) →
    Decidable (Fits prog ns)
  | [], _ => isTrue trivial
  | (_, i, j) :: prog, ns =>
    have := Fits.decidable prog (ns ++ [ns.getD i 0 + ns.getD j 0])
    inferInstanceAs (Decidable (_ ∧ _ ∧ _ ∧ _))

/-- Two inputs with one dependency each, their product and then its square: the square has
four dependencies. -/
example : Fits [(.mul, 0, 1), (.mul, 2, 2)] [1, 1] ∧
    ndepRun [(.mul, 0, 1), (.mul, 2, 2)] [1, 1] = [1, 1, 2, 4] := by
  decide

/-- The live entries of `h` stand for `vs`, with the dependency counts `ns`. -/
structure HoldsDuals (h : LinExprHeap K) (vs : List (K × (Nat → K))) (ns : List Nat) : Prop where
  count : h.nLinexpr = vs.length
  counts_length : ns.length = vs.length
  entry : ∀ i < vs.length, ∃ e, h.read ⟨h.alloc, i⟩ = .ok e ∧ e.dual = vs.getD i 0 ∧
    e.ndep = ns.getD i 0

section Run
variable {h h' : LinExprHeap K} {vs : List (K × (Nat → K))} {ns : List Nat}

/-- A buffer that gains an entry holds one more pair. -/
theorem HoldsDuals.push (hH : HoldsDuals h vs ns) (happ : h.Appends h') {r : LinExpr K}
    (hr : h'.read ⟨h.alloc, h.nLinexpr⟩ = .ok r) :
    HoldsDuals h' (vs ++ [r.dual]) (ns ++ [r.ndep]) := by
  have hns := hH.counts_length
  refine ⟨by simp [happ.count_eq, hH.count], by simp [hns], fun i hi => ?_⟩
  rw [List.length_append, List.length_singleton] at hi
  rcases Nat.lt_succ_iff_lt_or_eq.1 hi with hi | rfl
  · obtain ⟨e, he, hd, hn⟩ := hH.entry i hi
    refine ⟨e, ?_, by rw [List.getD_append _ _ _ _ hi, hd],
      by rw [List.getD_append _ _ _ _ (hns ▸ hi), hn]⟩
    rw [happ.alloc_eq, happ.read_live _ ⟨rfl, hH.count ▸ hi⟩, he]
  · refine ⟨r, by rw [happ.alloc_eq, ← hH.count]; exact hr, ?_, ?_⟩
    · rw [List.getD_append_right _ _ _ _ le_rfl, Nat.sub_self, List.getD_cons_zero]
    · rw [← hns, List.getD_append_right _ _ _ _ le_rfl, Nat.sub_self, List.getD_cons_zero]

/-- One instruction, with room: the buffer gains what the code records from the operands. -/
theorem HoldsDuals.call (hi : h.Inv) (hH : HoldsDuals h vs ns) (hroom : h.nLinexpr < h.maxLinexpr)
    (op : LinOp) {i j : Nat} (hi' : i < vs.length) (hj : j < vs.length)
    (hfit : ns.getD i 0 + ns.getD j 0 ≤ maxNdep) :
    ∃ h', op.call ⟨h.alloc, i⟩ ⟨h.alloc, j⟩ h = .ok (h', ⟨h.alloc, h.nLinexpr⟩) ∧
      h.Appends h' ∧ HoldsDuals h' (vs ++ [op.recorded (vs.getD i 0) (vs.getD j 0)])
        (ns ++ [ns.getD i 0 + ns.getD j 0]) := by
  obtain ⟨ea, hea, hda, hna⟩ := hH.entry i hi'
  obtain ⟨eb, heb, hdb, hnb⟩ := hH.entry j hj
  obtain ⟨h', r, hcall, happ, hr, hn, hd⟩ :=
    op.call_appends hi hroom ⟨rfl, hH.count ▸ hi'⟩ ⟨rfl, hH.count ▸ hj⟩ hea heb
      (by rw [hna, hnb]; exact hfit)
  refine ⟨h', hcall, happ, ?_⟩
  rw [← hda, ← hdb, ← hd, ← hna, ← hnb, ← hn]
  exact hH.push happ hr

/-- **A straight-line program runs as the code's rules say.** On a well-shaped buffer whose
live entries stand for `vs` with dependency counts `ns`, a program with room for all its
results and whose results fit in `MAX_NDEP` dependencies runs without a fault; the buffer
keeps its shape and its live entries stand for the code's records, each result with
`a->ndep + b->ndep` dependencies. -/
theorem runLinOps_recorded (prog : List (LinOp × Nat × Nat)) (hi : h.Inv)
    (hH : HoldsDuals h vs ns) (hroom : h.nLinexpr + prog.length ≤ h.maxLinexpr)
    (hfits : Fits prog ns) :
    ∃ h', runLinOps prog h = .ok h' ∧ h'.Inv ∧
      HoldsDuals h' (recordedRun prog vs) (ndepRun prog ns) := by
  induction prog generalizing h vs ns with
  | nil => exact ⟨h, rfl, hi, hH⟩
  | cons c prog ih =>
    obtain ⟨op, i, j⟩ := c
    obtain ⟨hi', hj, hfit, hfits⟩ := hfits
    rw [List.length_cons] at hroom
    obtain ⟨h', hcall, happ, hH'⟩ := hH.call hi (by omega) op
      (hH.counts_length ▸ hi') (hH.counts_length ▸ hj) hfit
    obtain ⟨h'', hrun, hi'', hH''⟩ := ih happ.inv hH'
      (by rw [happ.count_eq, happ.max_eq]; omega) hfits
    exact ⟨h'', by simp only [runLinOps, hcall, except_ok_bind, hrun], hi'', hH''⟩

/-- **A straight-line program of sums, differences and products computes forward-mode
derivatives.** On a buffer as in `runLinOps_recorded`, a program without a division leaves
live entries that stand for its meaning. -/
theorem runLinOps_dual (prog : List (LinOp × Nat × Nat)) (hi : h.Inv) (hH : HoldsDuals h vs ns)
    (hroom : h.nLinexpr + prog.length ≤ h.maxLinexpr) (hfits : Fits prog ns)
    (hdiv : ∀ c ∈ prog, c.1 ≠ .div) :
    ∃ h', runLinOps prog h = .ok h' ∧ h'.Inv ∧
      HoldsDuals h' (dualRun prog vs) (ndepRun prog ns) := by
  rw [← recordedRun_eq_dualRun prog hdiv]
  exact runLinOps_recorded prog hi hH hroom hfits

/-- Two inputs `x = 3` and `y = 5` with identifiers 1 and 2 and room for two more entries:
`x * y`, then `x * y + x`. -/
theorem runLinOps_dual_mulAdd :
    let x : LinExpr ℚ := ⟨3, 1, fun _ => 1, fun _ => 1⟩
    let y : LinExpr ℚ := ⟨5, 1, fun _ => 2, fun _ => 1⟩
    ∃ h' : LinExprHeap ℚ, runLinOps [(.mul, 0, 1), (.add, 2, 0)] ⟨[x, y, .blank, .blank], 2, 4, 0⟩
        = .ok h' ∧ h'.Inv ∧
      HoldsDuals h' (dualRun [(.mul, 0, 1), (.add, 2, 0)] [x.dual, y.dual])
        (ndepRun [(.mul, 0, 1), (.add, 2, 0)] [1, 1]) :=
  runLinOps_dual _ ⟨by decide, rfl⟩
    ⟨rfl, rfl, fun i hi => match i, hi with
      | 0, _ => ⟨_, rfl, rfl, rfl⟩
      | 1, _ => ⟨_, rfl, rfl, rfl⟩⟩
    (by decide) (by decide) (by decide)

end Run

end Derivgrind
