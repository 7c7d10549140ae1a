import Derivgrind.Bar.LinExpr

/-!
# Derivgrind.Bar.LinExprOps

The arithmetic of `dg_bar.c` on linearized expressions. `linearCombinationOfDependencies(k,
a, l, b)` takes a new entry and copies into it the dependencies of `a` scaled by `k`,
followed by those of `b` scaled by `l`; `addLinExpr`, `subLinExpr`, `mulLinExpr` and
`divLinExpr` call it with the partial derivatives of their operation and then set the value.

Read as gradients (`gradient`: each identifier's jacobians summed), the sum, difference and
product come out as calculus says (`addLinExpr_ok`, `subLinExpr_ok`, `mulLinExpr_ok`), but the
quotient comes out negated: `divLinExpr` passes `-1/b` and `a/b²` where the quotient rule has
`1/b` and `-a/b²` (`divLinExpr_ok`, `divLinExpr_gradient_at`). Beyond that:

* the new entry has room for `MAX_NDEP` dependencies, which nothing checks, so two operands
  with more than `MAX_NDEP` between them make the copy write past the record
  (`linearCombinationOfDependencies_overflow`);
* the new entry comes from `newLinExpr`, which moves the buffer when it is full, after which
  the operands are read through pointers into the freed allocation
  (`linExprOps_of_full`).
-/

namespace Derivgrind

variable {K : Type} [Field K]

/-! ## Dependencies and gradients -/

/-- Dependency `i` of a record: `(identifier[i], jacobian[i])`. -/
def LinExpr.pair (e : LinExpr K) (i : Nat) : Nat × K :=
  if h : i < maxNdep then (e.identifier ⟨i, h⟩, e.jacobian ⟨i, h⟩) else (0, 0)

/-- The dependencies of a record, in slot order. -/
def LinExpr.deps (e : LinExpr K) : List (Nat × K) := (List.range e.ndep).map e.pair

/-- The gradient a list of dependencies stands for: each identifier's jacobians summed. -/
def gradient : List (Nat × K) → Nat → K
  | [], _ => 0
  | (i, j) :: ds, id => (if i = id then j else 0) + gradient ds id

/-- A dependency scaled by `k`. -/
def scaleDep (k : K) (d : Nat × K) : Nat × K := (d.1, k * d.2)

@[simp] theorem gradient_nil (id : Nat) : gradient ([] : List (Nat × K)) id = 0 := rfl

@[simp] theorem gradient_cons (i : Nat) (j : K) (ds : List (Nat × K)) (id : Nat) :
    gradient ((i, j) :: ds) id = (if i = id then j else 0) + gradient ds id := rfl

@[simp] theorem gradient_append (ds ds' : List (Nat × K)) (id : Nat) :
    gradient (ds ++ ds') id = gradient ds id + gradient ds' id := by
  induction ds with
  | nil => simp
  | cons d ds ih => obtain ⟨i, j⟩ := d; simp [ih, add_assoc]

@[simp] theorem gradient_map_scaleDep (k : K) (ds : List (Nat × K)) (id : Nat) :
    gradient (ds.map (scaleDep k)) id = k * gradient ds id := by
  induction ds with
  | nil => simp
  | cons d ds ih => obtain ⟨i, j⟩ := d; simp [ih, scaleDep, mul_add]

/-- Writing slot `j` of both arrays changes dependency `j` only. -/
theorem LinExpr.pair_update (e : LinExpr K) {j : Nat} (hj : j < maxNdep) (x : Nat) (y : K)
    (i : Nat) :
    ({ e with
        identifier := Function.update e.identifier ⟨j, hj⟩ x
        jacobian := Function.update e.jacobian ⟨j, hj⟩ y } : LinExpr K).pair i =
      if i = j then (x, y) else e.pair i := by
  unfold LinExpr.pair
  by_cases hij : i = j
  · subst hij; simp [hj]
  · have hne : ∀ h : i < maxNdep, (⟨i, h⟩ : Fin maxNdep) ≠ ⟨j, hj⟩ :=
      fun _ h => hij (Fin.mk.inj h)
    split_ifs with hi
    · simp [Function.update_noteq (hne hi)]
    · rfl

/-! ## `linearCombinationOfDependencies` -/

/-- The first `count` rounds of a copy loop of `linearCombinationOfDependencies`:
`res->identifier[off+i] = src->identifier[i]; res->jacobian[off+i] = k*src->jacobian[i];`. -/
def copyDeps (k : K) (src : LinExpr K) (off : Nat) :
    Nat → LinExpr K → Except LinExprFault (LinExpr K)
  | 0, res => .ok res
  | i + 1, res => do
    let res ← copyDeps k src off i res
    let id ← slotGet src.identifier i
    let identifier ← slotSet res.identifier (off + i) id
    let jac ← slotGet src.jacobian i
    let jacobian ← slotSet res.jacobian (off + i) (k * jac)
    pure { res with identifier := identifier, jacobian := jacobian }

/-- `linearCombinationOfDependencies(k, a, l, b)`: a new entry with `ndep = a->ndep + b->ndep`
holding the dependencies of `a` scaled by `k`, then those of `b` scaled by `l`. Its value is
not set. -/
def linearCombinationOfDependencies (k : K) (a : LinPtr) (l : K) (b : LinPtr)
    (h : LinExprHeap K) : Except LinExprFault (LinExprHeap K × LinPtr) := do
  let (h, res) := newLinExpr h
  let ea ← h.read a
  let eb ← h.read b
  let r ← h.read res
  let r ← copyDeps k ea 0 ea.ndep { r with ndep := ea.ndep + eb.ndep }
  let r ← copyDeps l eb ea.ndep eb.ndep r
  let h ← h.write res r
  pure (h, res)

/-- What `addLinExpr` and its siblings do after the linear combination:
`res->value = f(a->value, b->value)`. -/
def setValue (f : K → K → K) (a b : LinPtr) (hr : LinExprHeap K × LinPtr) :
    Except LinExprFault (LinExprHeap K × LinPtr) := do
  let (h, res) := hr
  let ea ← h.read a
  let eb ← h.read b
  let r ← h.read res
  let h ← h.write res { r with value := f ea.value eb.value }
  pure (h, res)

/-- `addLinExpr`. -/
def addLinExpr (a b : LinPtr) (h : LinExprHeap K) :
    Except LinExprFault (LinExprHeap K × LinPtr) :=
  linearCombinationOfDependencies 1 a 1 b h >>= setValue (· + ·) a b

/-- `subLinExpr`. -/
def subLinExpr (a b : LinPtr) (h : LinExprHeap K) :
    Except LinExprFault (LinExprHeap K × LinPtr) :=
  linearCombinationOfDependencies 1 a (-1) b h >>= setValue (· - ·) a b

/-- `mulLinExpr`: the factors `b->value` and `a->value` are read before the call. -/
def mulLinExpr (a b : LinPtr) (h : LinExprHeap K) :
    Except LinExprFault (LinExprHeap K × LinPtr) := do
  let ea ← h.read a
  let eb ← h.read b
  linearCombinationOfDependencies eb.value a ea.value b h >>= setValue (· * ·) a b

/-- `divLinExpr`: the factors `-1./b->value` and `a->value/(b->value*b->value)`. -/
def divLinExpr (a b : LinPtr) (h : LinExprHeap K) :
    Except LinExprFault (LinExprHeap K × LinPtr) := do
  let ea ← h.read a
  let eb ← h.read b
  linearCombinationOfDependencies (-1 / eb.value) a (ea.value / (eb.value * eb.value)) b h >>=
    setValue (· / ·) a b

/-! ## The copy loops -/

section Copy
variable (k : K) (src : LinExpr K) (off : Nat)

/-- With room for them, the first `count` dependencies of `src`, scaled by `k`, land at
`off, off+1, ...`; the rest of the record is kept. -/
theorem copyDeps_ok (res : LinExpr K) (count : Nat) (hc : off + count ≤ maxNdep) :
    ∃ res', copyDeps k src off count res = .ok res' ∧ res'.value = res.value ∧
      res'.ndep = res.ndep ∧ ∀ i, res'.pair i =
        if off ≤ i ∧ i < off + count then scaleDep k (src.pair (i - off)) else res.pair i := by
  induction count with
  | zero => exact ⟨res, rfl, rfl, rfl, fun i => (if_neg (by omega)).symm⟩
  | succ n ih =>
    obtain ⟨r, hr, hv, hn, hp⟩ := ih (by omega)
    have hs : n < maxNdep := by omega
    have ho : off + n < maxNdep := by omega
    refine ⟨{ r with
        identifier := Function.update r.identifier ⟨off + n, ho⟩ (src.identifier ⟨n, hs⟩)
        jacobian := Function.update r.jacobian ⟨off + n, ho⟩ (k * src.jacobian ⟨n, hs⟩) },
      by simp only [copyDeps, hr, except_ok_bind, slotGet_of_lt hs, slotSet_of_lt ho, except_pure],
      hv, hn, fun i => ?_⟩
    rw [LinExpr.pair_update r ho]
    by_cases hi : i = off + n
    · subst hi
      simp [scaleDep, LinExpr.pair, hs]
    · rw [if_neg hi, hp i]
      congr 1
      simp only [eq_iff_iff]
      omega

/-- With `off ≤ MAX_NDEP` and too many dependencies for the room left, the copy writes
slot `MAX_NDEP`. -/
theorem copyDeps_overflow (res : LinExpr K) (count : Nat) (hoff : off ≤ maxNdep)
    (hc : count ≤ maxNdep) (hover : maxNdep < off + count) :
    copyDeps k src off count res = .error (.writePastSlots maxNdep) := by
  induction count with
  | zero => omega
  | succ n ih =>
    by_cases hfit : off + n ≤ maxNdep
    · obtain ⟨r, hr, -⟩ := copyDeps_ok k src off res n hfit
      have hs : n < maxNdep := by omega
      have hedge : off + n = maxNdep := by omega
      simp only [copyDeps, hr, except_ok_bind, slotGet_of_lt hs, hedge,
        slotSet_of_le (le_refl maxNdep), except_error_bind]
    · simp only [copyDeps, ih (by omega) (by omega), except_error_bind]

end Copy

/-- The dependencies of a record whose pairs are those of `ea` scaled by `k`, then those of
`eb` scaled by `l`. -/
theorem deps_of_pairs {r ea eb : LinExpr K} {k l : K} (hn : r.ndep = ea.ndep + eb.ndep)
    (hp : ∀ i, i < r.ndep → r.pair i =
      if i < ea.ndep then scaleDep k (ea.pair i) else scaleDep l (eb.pair (i - ea.ndep))) :
    r.deps = ea.deps.map (scaleDep k) ++ eb.deps.map (scaleDep l) := by
  simp only [LinExpr.deps, hn, List.range_add, List.map_append, List.map_map]
  congr 1
  · refine List.map_congr_left fun i hi => ?_
    have hi := List.mem_range.1 hi
    simp [hp i (by omega), hi]
  · refine List.map_congr_left fun i hi => ?_
    have hi := List.mem_range.1 hi
    simp [hp (ea.ndep + i) (by omega)]

/-! ## The linear combination on a buffer with room -/

section Room
variable {h : LinExprHeap K} {a b : LinPtr} {ea eb : LinExpr K}

/-- Without growth, `newLinExpr` leaves every live entry as it was. -/
theorem newLinExpr_read_of_live (hf : h.nLinexpr ≠ h.maxLinexpr) {p : LinPtr}
    (hp : h.Live p) : (newLinExpr h).1.read p = h.read p := by
  rw [newLinExpr_of_ne hf]
  simp [LinExprHeap.read, List.getElem?_modify, Nat.ne_of_gt hp.2]

/-- With room, `newLinExpr` hands out entry `n_linexpr` of the same allocation and keeps the
live entries. -/
theorem newLinExpr_of_room (hi : h.Inv) (hroom : h.nLinexpr < h.maxLinexpr) :
    ∃ h1 r0, newLinExpr h = (h1, ⟨h.alloc, h.nLinexpr⟩) ∧ h1.Inv ∧ h1.alloc = h.alloc ∧
      h1.maxLinexpr = h.maxLinexpr ∧ h1.nLinexpr = h.nLinexpr + 1 ∧
      h1.read ⟨h.alloc, h.nLinexpr⟩ = .ok r0 ∧ ∀ p, h.Live p → h1.read p = h.read p := by
  have hf : h.nLinexpr ≠ h.maxLinexpr := Nat.ne_of_lt hroom
  obtain ⟨hi1, -, -, -, r0, hr0, -⟩ := newLinExpr_spec hi
  have halloc : (newLinExpr h).1.alloc = h.alloc := by rw [newLinExpr_alloc, if_neg hf]
  have hmax : (newLinExpr h).1.maxLinexpr = h.maxLinexpr := by rw [newLinExpr_of_ne hf]
  refine ⟨_, r0, Prod.ext rfl (by rw [newLinExpr_snd, halloc]), hi1, halloc, hmax,
    newLinExpr_nLinexpr, LinExprHeap.read_of_getElem? halloc.symm hr0,
    fun p => newLinExpr_read_of_live hf⟩

/-- With room for the result, `linearCombinationOfDependencies` on live entries returns
entry `n_linexpr`, with `ndep = a->ndep + b->ndep` and the scaled dependencies of `a`
then `b`, and keeps the buffer's shape and its live entries. -/
theorem linearCombinationOfDependencies_ok (hi : h.Inv) (hroom : h.nLinexpr < h.maxLinexpr)
    (ha : h.Live a) (hb : h.Live b) (hea : h.read a = .ok ea) (heb : h.read b = .ok eb)
    (hfit : ea.ndep + eb.ndep ≤ maxNdep) (k l : K) :
    ∃ h', linearCombinationOfDependencies k a l b h = .ok (h', ⟨h.alloc, h.nLinexpr⟩) ∧
      h'.Inv ∧ h'.alloc = h.alloc ∧ h'.maxLinexpr = h.maxLinexpr ∧
      h'.nLinexpr = h.nLinexpr + 1 ∧ (∀ p, h.Live p → h'.read p = h.read p) ∧
      ∃ r, h'.read ⟨h.alloc, h.nLinexpr⟩ = .ok r ∧ r.ndep = ea.ndep + eb.ndep ∧
        r.deps = ea.deps.map (scaleDep k) ++ eb.deps.map (scaleDep l) := by
  obtain ⟨h1, r0, hnew, hi1, halloc, hmax1, hn1, hr0, hlive⟩ := newLinExpr_of_room hi hroom
  obtain ⟨r1, hc1, -, hnr1, hp1⟩ :=
    copyDeps_ok k ea 0 { r0 with ndep := ea.ndep + eb.ndep } ea.ndep (by omega)
  obtain ⟨r2, hc2, -, hnr2, hp2⟩ := copyDeps_ok l eb ea.ndep r1 eb.ndep hfit
  have hlt : h.nLinexpr < h1.buffer.length := by
    have := hi1.n_le_max; have := hi1.length_eq; omega
  obtain ⟨h2, hw⟩ : ∃ h2, h1.write ⟨h.alloc, h.nLinexpr⟩ r2 = .ok h2 :=
    ⟨_, LinExprHeap.write_of_lt halloc.symm hlt r2⟩
  obtain ⟨-, -, hh2⟩ := LinExprHeap.write_eq_ok hw
  refine ⟨h2, ?_, ⟨?_, ?_⟩, by rw [hh2, halloc], by rw [hh2, hmax1], by rw [hh2, hn1],
    fun p hp => ?_, r2,
    LinExprHeap.read_write_self hw, by rw [hnr2, hnr1], deps_of_pairs (by rw [hnr2, hnr1]) ?_⟩
  · simp only [linearCombinationOfDependencies, hnew, hlive a ha, hlive b hb, hea, heb,
      except_ok_bind, hr0, hc1, hc2, hw, except_pure]
  · rw [hh2]; exact hi1.n_le_max
  · rw [hh2, List.length_set]; exact hi1.length_eq
  · rw [LinExprHeap.read_write_of_ne hw (Nat.ne_of_lt hp.2), hlive p hp]
  · intro i hi
    rw [hp2 i, hp1]
    by_cases hia : i < ea.ndep
    · simp [hia]
    · rw [hnr2, hnr1] at hi
      simp [hia, Nat.le_of_not_lt hia, hi]

/-- Operands with more than `MAX_NDEP` dependencies between them: the second copy loop
writes slot `MAX_NDEP` of the new entry, past its arrays. -/
theorem linearCombinationOfDependencies_overflow (hi : h.Inv)
    (hroom : h.nLinexpr < h.maxLinexpr) (ha : h.Live a) (hb : h.Live b)
    (hea : h.read a = .ok ea) (heb : h.read b = .ok eb) (hna : ea.ndep ≤ maxNdep)
    (hnb : eb.ndep ≤ maxNdep) (hover : maxNdep < ea.ndep + eb.ndep) (k l : K) :
    linearCombinationOfDependencies k a l b h = .error (.writePastSlots maxNdep) := by
  obtain ⟨h1, r0, hnew, -, -, -, -, hr0, hlive⟩ := newLinExpr_of_room hi hroom
  obtain ⟨r1, hc1, -⟩ :=
    copyDeps_ok k ea 0 { r0 with ndep := ea.ndep + eb.ndep } ea.ndep (by omega)
  simp only [linearCombinationOfDependencies, hnew, hlive a ha, hlive b hb, hea, heb,
    except_ok_bind, hr0, hc1, copyDeps_overflow l eb ea.ndep r1 eb.ndep hna hnb hover,
    except_error_bind]

omit [Field K] in
/-- Two entries with `MAX_NDEP` dependencies each, and room for the result: the linear
combination, and `addLinExpr` with it, write slot `MAX_NDEP` of the new entry. -/
theorem linearCombinationOfDependencies_writes_past_slots :
    let e : LinExpr ℚ := ⟨0, 100, fun i => i.1, fun _ => 1⟩
    let h : LinExprHeap ℚ := ⟨[e, e, .blank], 2, 3, 2⟩
    linearCombinationOfDependencies 1 ⟨2, 0⟩ 1 ⟨2, 1⟩ h = .error (.writePastSlots 100) ∧
      addLinExpr ⟨2, 0⟩ ⟨2, 1⟩ h = .error (.writePastSlots 100) := by
  intro e h
  have hl := @linearCombinationOfDependencies_overflow ℚ _ h ⟨2, 0⟩ ⟨2, 1⟩ e e
    ⟨by decide, rfl⟩ (by decide) ⟨rfl, by decide⟩ ⟨rfl, by decide⟩ rfl rfl le_rfl le_rfl
    (by decide) 1 1
  exact ⟨hl, by simp only [addLinExpr, hl, except_error_bind]; rfl⟩

omit [Field K] in
/-- `setValue` on readable entries writes the value into the result. -/
theorem setValue_ok (f : K → K → K) {res : LinPtr} {r : LinExpr K} (hea : h.read a = .ok ea)
    (heb : h.read b = .ok eb) (hr : h.read res = .ok r) :
    ∃ h', setValue f a b (h, res) = .ok (h', res) ∧
      h'.read res = .ok { r with value := f ea.value eb.value } := by
  exact ⟨_, by simp only [setValue, hea, heb, hr, except_ok_bind,
      LinExprHeap.write_of_read_ok hr, except_pure],
    LinExprHeap.read_write_self (LinExprHeap.write_of_read_ok hr _)⟩

/-- `h'` is `h` with one more entry: the shape is kept, the allocation and `max_linexpr` stay,
`n_linexpr` grows by one and the live entries of `h` read the same. -/
structure LinExprHeap.Appends (h h' : LinExprHeap K) : Prop where
  inv : h'.Inv
  alloc_eq : h'.alloc = h.alloc
  max_eq : h'.maxLinexpr = h.maxLinexpr
  count_eq : h'.nLinexpr = h.nLinexpr + 1
  read_live : ∀ p, h.Live p → h'.read p = h.read p

/-- The four operations with room: the linear combination with factors `k` and `l`, then the
value `f(a, b)`, in a new entry `n_linexpr`; the gradient is `k * grad a + l * grad b`. -/
theorem linearCombination_setValue_appends (hi : h.Inv) (hroom : h.nLinexpr < h.maxLinexpr)
    (ha : h.Live a) (hb : h.Live b) (hea : h.read a = .ok ea) (heb : h.read b = .ok eb)
    (hfit : ea.ndep + eb.ndep ≤ maxNdep) (k l : K) (f : K → K → K) :
    ∃ h' r, (linearCombinationOfDependencies k a l b h >>= setValue f a b) =
        .ok (h', ⟨h.alloc, h.nLinexpr⟩) ∧ h.Appends h' ∧ h'.read ⟨h.alloc, h.nLinexpr⟩ = .ok r ∧
      r.ndep = ea.ndep + eb.ndep ∧ r.value = f ea.value eb.value ∧
      ∀ id, gradient r.deps id = k * gradient ea.deps id + l * gradient eb.deps id := by
  obtain ⟨h1, hl, hi1, halloc, hmax, hn1, hlive, r, hr, hnr, hdeps⟩ :=
    linearCombinationOfDependencies_ok hi hroom ha hb hea heb hfit k l
  have hw := LinExprHeap.write_of_read_ok hr { r with value := f ea.value eb.value }
  refine ⟨{ h1 with buffer := h1.buffer.set h.nLinexpr { r with value := f ea.value eb.value } },
    _, ?_, ⟨⟨hi1.n_le_max, ?_⟩, halloc, hmax, hn1, fun p hp => ?_⟩,
    LinExprHeap.read_write_self hw, hnr, rfl, fun id => ?_⟩
  · simp only [hl, except_ok_bind, setValue, hlive a ha, hea, hlive b hb, heb, hr, hw,
      except_pure]
  · rw [List.length_set]; exact hi1.length_eq
  · rw [LinExprHeap.read_write_of_ne hw (Nat.ne_of_lt hp.2), hlive p hp]
  · show gradient r.deps id = _
    simp [hdeps]

theorem linearCombination_setValue_ok (hi : h.Inv) (hroom : h.nLinexpr < h.maxLinexpr)
    (ha : h.Live a) (hb : h.Live b) (hea : h.read a = .ok ea) (heb : h.read b = .ok eb)
    (hfit : ea.ndep + eb.ndep ≤ maxNdep) (k l : K) (f : K → K → K) :
    ∃ h' r, (linearCombinationOfDependencies k a l b h >>= setValue f a b) =
        .ok (h', ⟨h.alloc, h.nLinexpr⟩) ∧ h'.read ⟨h.alloc, h.nLinexpr⟩ = .ok r ∧
      r.value = f ea.value eb.value ∧
      ∀ id, gradient r.deps id = k * gradient ea.deps id + l * gradient eb.deps id := by
  obtain ⟨h', r, hop, -, hr, -, hv, hg⟩ :=
    linearCombination_setValue_appends hi hroom ha hb hea heb hfit k l f
  exact ⟨h', r, hop, hr, hv, hg⟩

/-- `addLinExpr` with room: value `a + b`, gradient `grad a + grad b`. -/
theorem addLinExpr_ok (hi : h.Inv) (hroom : h.nLinexpr < h.maxLinexpr) (ha : h.Live a)
    (hb : h.Live b) (hea : h.read a = .ok ea) (heb : h.read b = .ok eb)
    (hfit : ea.ndep + eb.ndep ≤ maxNdep) :
    ∃ h' r, addLinExpr a b h = .ok (h', ⟨h.alloc, h.nLinexpr⟩) ∧
      h'.read ⟨h.alloc, h.nLinexpr⟩ = .ok r ∧ r.value = ea.value + eb.value ∧
      ∀ id, gradient r.deps id = gradient ea.deps id + gradient eb.deps id := by
  obtain ⟨h', r, hop, hr, hv, hg⟩ :=
    linearCombination_setValue_ok hi hroom ha hb hea heb hfit 1 1 (· + ·)
  exact ⟨h', r, hop, hr, hv, fun id => by rw [hg, one_mul, one_mul]⟩

/-- `subLinExpr` with room: value `a - b`, gradient `grad a - grad b`. -/
theorem subLinExpr_ok (hi : h.Inv) (hroom : h.nLinexpr < h.maxLinexpr) (ha : h.Live a)
    (hb : h.Live b) (hea : h.read a = .ok ea) (heb : h.read b = .ok eb)
    (hfit : ea.ndep + eb.ndep ≤ maxNdep) :
    ∃ h' r, subLinExpr a b h = .ok (h', ⟨h.alloc, h.nLinexpr⟩) ∧
      h'.read ⟨h.alloc, h.nLinexpr⟩ = .ok r ∧ r.value = ea.value - eb.value ∧
      ∀ id, gradient r.deps id = gradient ea.deps id - gradient eb.deps id := by
  obtain ⟨h', r, hop, hr, hv, hg⟩ :=
    linearCombination_setValue_ok hi hroom ha hb hea heb hfit 1 (-1) (· - ·)
  exact ⟨h', r, hop, hr, hv, fun id => by rw [hg]; ring⟩

/-- `mulLinExpr` with room: value `a * b`, gradient `b * grad a + a * grad b`. -/
theorem mulLinExpr_ok (hi : h.Inv) (hroom : h.nLinexpr < h.maxLinexpr) (ha : h.Live a)
    (hb : h.Live b) (hea : h.read a = .ok ea) (heb : h.read b = .ok eb)
    (hfit : ea.ndep + eb.ndep ≤ maxNdep) :
    ∃ h' r, mulLinExpr a b h = .ok (h', ⟨h.alloc, h.nLinexpr⟩) ∧
      h'.read ⟨h.alloc, h.nLinexpr⟩ = .ok r ∧ r.value = ea.value * eb.value ∧
      ∀ id, gradient r.deps id = eb.value * gradient ea.deps id + ea.value * gradient eb.deps id := by
  obtain ⟨h', r, hop, hr, hv, hg⟩ :=
    linearCombination_setValue_ok hi hroom ha hb hea heb hfit eb.value ea.value (· * ·)
  exact ⟨h', r, by simp only [mulLinExpr, hea, heb, except_ok_bind, hop], hr, hv, hg⟩

/-- `divLinExpr` with room: value `a / b`, but gradient `(-1/b) * grad a + (a/b²) * grad b`,
the negation of the quotient rule. -/
theorem divLinExpr_ok (hi : h.Inv) (hroom : h.nLinexpr < h.maxLinexpr) (ha : h.Live a)
    (hb : h.Live b) (hea : h.read a = .ok ea) (heb : h.read b = .ok eb)
    (hfit : ea.ndep + eb.ndep ≤ maxNdep) :
    ∃ h' r, divLinExpr a b h = .ok (h', ⟨h.alloc, h.nLinexpr⟩) ∧
      h'.read ⟨h.alloc, h.nLinexpr⟩ = .ok r ∧ r.value = ea.value / eb.value ∧
      ∀ id, gradient r.deps id = -((1 / eb.value) * gradient ea.deps id -
        (ea.value / eb.value ^ 2) * gradient eb.deps id) := by
  obtain ⟨h', r, hop, hr, hv, hg⟩ := linearCombination_setValue_ok hi hroom ha hb hea heb hfit
    (-1 / eb.value) (ea.value / (eb.value * eb.value)) (· / ·)
  exact ⟨h', r, by simp only [divLinExpr, hea, heb, except_ok_bind, hop], hr, hv,
    fun id => by rw [hg]; ring⟩

/-- `x / 1` for an `x` with value `1` and jacobian `1` on identifier `1`, with room for the
result: the quotient rule gives the gradient `1` on identifier `1`; `divLinExpr` gives `-1`. -/
theorem divLinExpr_gradient_at :
    let x : LinExpr ℚ := ⟨1, 1, fun _ => 1, fun _ => 1⟩
    let one : LinExpr ℚ := ⟨1, 0, fun _ => 0, fun _ => 0⟩
    ∃ h' r, divLinExpr ⟨2, 0⟩ ⟨2, 1⟩ ⟨[x, one, .blank], 2, 3, 2⟩ = .ok (h', ⟨2, 2⟩) ∧
      h'.read ⟨2, 2⟩ = .ok r ∧ r.value = 1 ∧ gradient r.deps 1 = -1 := by
  intro x one
  obtain ⟨h', r, hop, hr, hv, hg⟩ := @divLinExpr_ok ℚ _ ⟨[x, one, .blank], 2, 3, 2⟩ ⟨2, 0⟩
    ⟨2, 1⟩ x one ⟨by decide, rfl⟩ (by decide) ⟨rfl, by decide⟩ ⟨rfl, by decide⟩ rfl rfl
    (by decide)
  refine ⟨h', r, hop, hr, by rw [hv]; norm_num, ?_⟩
  have hx : x.deps = [(1, 1)] := rfl
  have hone : one.deps = [] := rfl
  rw [hg, hx, hone, gradient_cons, gradient_nil, if_pos rfl]
  norm_num [x, one]

/-- When the buffer is full, `newLinExpr` moves it to a new allocation, and the linear
combination then reads `a` through a pointer into the freed one. -/
theorem linearCombinationOfDependencies_of_full (hfull : h.nLinexpr = h.maxLinexpr)
    (ha : a.alloc = h.alloc) (k l : K) :
    linearCombinationOfDependencies k a l b h = .error .freed := by
  have hne : a.alloc ≠ (newLinExpr h).1.alloc := by
    rw [newLinExpr_alloc, if_pos hfull, ha]; exact Nat.ne_of_lt (Nat.lt_succ_self _)
  simp only [linearCombinationOfDependencies, LinExprHeap.read_of_ne_alloc hne,
    except_error_bind]

/-- Every operation on live entries of a full buffer reads freed memory. -/
theorem linExprOps_of_full (hi : h.Inv) (hfull : h.nLinexpr = h.maxLinexpr) (ha : h.Live a)
    (hb : h.Live b) :
    addLinExpr a b h = .error .freed ∧ subLinExpr a b h = .error .freed ∧
      mulLinExpr a b h = .error .freed ∧ divLinExpr a b h = .error .freed := by
  obtain ⟨ea, hea⟩ := ha.read_ok hi
  obtain ⟨eb, heb⟩ := hb.read_ok hi
  simp only [addLinExpr, subLinExpr, mulLinExpr, divLinExpr, hea, heb, except_ok_bind,
    linearCombinationOfDependencies_of_full hfull ha.1, except_error_bind, and_self]

end Room

end Derivgrind
