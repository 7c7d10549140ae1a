import Mathlib

/-!
# Derivgrind.Bar.LinExpr

The buffer of linearized expressions in `dg_bar.c`: a `LinExpr` is a value with up to
`MAX_NDEP` dependencies, and every `LinExpr` lives in the growing array `buffer_linexpr`,
of which the first `n_linexpr` entries are in use and `max_linexpr` are allocated.
`newLinExpr` hands out the next entry and, when the array is full, moves it to a new
allocation of `2*n_linexpr+1` entries; `deleteAllLinExpr` gives all entries back.

The memory is modelled at the level the code works at: the array is a list of `LinExpr`
records, a `LinExpr*` is an allocation and an index into it (`LinPtr`), and what C leaves
undefined is a `LinExprFault`: an access through a pointer into a freed allocation, past
the allocated entries, or past the `MAX_NDEP` slots of a record.

The main result is the shape invariant of the buffer over every sequence of calls
(`bufferLinexpr_shape`).
-/

namespace Derivgrind

/-! ## Records and their slots -/

/-- `MAX_NDEP`: the room a `LinExpr` has for dependencies. -/
def maxNdep : Nat := 100

/-- `LinExpr`: the value and the first `ndep` dependencies, each an `identifier[i]` (an
address, `void*`) with its partial derivative `jacobian[i]`. A `Scalar` (`double`) is read
as a number of `K`. -/
structure LinExpr (K : Type) where
  value : K
  ndep : Nat
  identifier : Fin maxNdep → Nat
  jacobian : Fin maxNdep → K

/-- What C leaves undefined in this code, reported by the model. -/
inductive LinExprFault where
  /-- an access through a pointer into an allocation that `newLinExpr` has freed -/
  | freed
  /-- an access to entry `idx` of an allocation with fewer entries -/
  | pastBuffer (idx : Nat)
  /-- a read of `identifier[i]` or `jacobian[i]` with `i ≥ MAX_NDEP` -/
  | readPastSlots (i : Nat)
  /-- a write of `identifier[i]` or `jacobian[i]` with `i ≥ MAX_NDEP` -/
  | writePastSlots (i : Nat)
  deriving DecidableEq, Repr

section Monad
variable {ε α β : Type} {a : α} {e : ε} {f : α → Except ε β}

@[simp] theorem except_ok_bind : (Except.ok a >>= f) = f a := rfl
@[simp] theorem except_error_bind : (Except.error e >>= f : Except ε β) = .error e := rfl
@[simp] theorem except_pure : (pure a : Except ε α) = .ok a := rfl

theorem except_bind_eq_ok {x : Except ε α} {b : β} :
    x >>= f = .ok b ↔ ∃ a, x = .ok a ∧ f a = .ok b := by
  cases x <;> simp

end Monad

section Slots
variable {α : Type} (arr : Fin maxNdep → α)

/-- Reading `arr[i]` of a record's array. -/
def slotGet (i : Nat) : Except LinExprFault α :=
  if h : i < maxNdep then .ok (arr ⟨i, h⟩) else .error (.readPastSlots i)

/-- Writing `arr[i] = x` in a record's array. -/
def slotSet (i : Nat) (x : α) : Except LinExprFault (Fin maxNdep → α) :=
  if h : i < maxNdep then .ok (Function.update arr ⟨i, h⟩ x) else .error (.writePastSlots i)

variable {arr} {i : Nat}

theorem slotGet_of_lt (h : i < maxNdep) : slotGet arr i = .ok (arr ⟨i, h⟩) := dif_pos h

theorem slotGet_of_le (h : maxNdep ≤ i) : slotGet arr i = .error (.readPastSlots i) :=
  dif_neg (Nat.not_lt.2 h)

theorem slotSet_of_lt (h : i < maxNdep) (x : α) :
    slotSet arr i x = .ok (Function.update arr ⟨i, h⟩ x) := dif_pos h

theorem slotSet_of_le (h : maxNdep ≤ i) (x : α) :
    slotSet arr i x = .error (.writePastSlots i) := dif_neg (Nat.not_lt.2 h)

end Slots

/-- What fresh memory holds in the model. `VG_(malloc)` leaves it unset; the code sets
`ndep` of every entry it hands out. -/
def LinExpr.blank {K : Type} [Zero K] : LinExpr K := ⟨0, 0, fun _ => 0, fun _ => 0⟩

/-! ## The buffer -/

/-- A `LinExpr*`: entry `idx` of allocation number `alloc` of the buffer. -/
structure LinPtr where
  alloc : Nat
  idx : Nat
  deriving DecidableEq, Repr

/-- `p + k` for a `LinExpr* p`. -/
def LinPtr.offset (p : LinPtr) (k : Nat) : LinPtr := ⟨p.alloc, p.idx + k⟩

/-- The globals `buffer_linexpr`, `n_linexpr` and `max_linexpr`; `alloc` numbers the
allocation `buffer_linexpr` points at. -/
structure LinExprHeap (K : Type) where
  buffer : List (LinExpr K)
  nLinexpr : Nat
  maxLinexpr : Nat
  alloc : Nat

variable {K : Type}

namespace LinExprHeap

/-- The globals before the first call: `buffer_linexpr` is `NULL`. -/
def initial : LinExprHeap K := ⟨[], 0, 0, 0⟩

/-- `*p`. -/
def read (h : LinExprHeap K) (p : LinPtr) : Except LinExprFault (LinExpr K) :=
  if p.alloc = h.alloc then
    match h.buffer[p.idx]? with
    | some e => .ok e
    | none => .error (.pastBuffer p.idx)
  else .error .freed

/-- `*p = e`. -/
def write (h : LinExprHeap K) (p : LinPtr) (e : LinExpr K) :
    Except LinExprFault (LinExprHeap K) :=
  if p.alloc = h.alloc then
    if p.idx < h.buffer.length then .ok { h with buffer := h.buffer.set p.idx e }
    else .error (.pastBuffer p.idx)
  else .error .freed

/-- An entry in use: in the current allocation and below `n_linexpr`. -/
def Live (h : LinExprHeap K) (p : LinPtr) : Prop := p.alloc = h.alloc ∧ p.idx < h.nLinexpr

/-- The shape the buffer keeps (`bufferLinexpr_shape`). -/
structure Inv (h : LinExprHeap K) : Prop where
  n_le_max : h.nLinexpr ≤ h.maxLinexpr
  length_eq : h.buffer.length = h.maxLinexpr

variable {h h' : LinExprHeap K} {p q : LinPtr} {e : LinExpr K}

theorem read_of_getElem? (hp : p.alloc = h.alloc) (he : h.buffer[p.idx]? = some e) :
    h.read p = .ok e := by
  simp [read, hp, he]

theorem read_of_ne_alloc (hp : p.alloc ≠ h.alloc) : h.read p = .error .freed := by
  simp [read, hp]

theorem read_eq_ok {e : LinExpr K} :
    h.read p = .ok e ↔ p.alloc = h.alloc ∧ h.buffer[p.idx]? = some e := by
  unfold read
  split_ifs with hp
  · cases h.buffer[p.idx]? <;> simp [hp]
  · simp [hp]

/-- A live entry of a well-shaped buffer can be read. -/
theorem Live.read_ok (hi : h.Inv) (hp : h.Live p) : ∃ e, h.read p = .ok e := by
  have hlt : p.idx < h.buffer.length := by have := hi.n_le_max; have := hi.length_eq; have := hp.2; omega
  exact ⟨h.buffer[p.idx], read_of_getElem? hp.1 (List.getElem?_eq_getElem hlt)⟩

theorem write_of_lt (hp : p.alloc = h.alloc) (hlt : p.idx < h.buffer.length) (e : LinExpr K) :
    h.write p e = .ok { h with buffer := h.buffer.set p.idx e } := by
  simp [write, hp, hlt]

/-- An entry that can be read can be written. -/
theorem write_of_read_ok (hr : h.read p = .ok e) (e' : LinExpr K) :
    h.write p e' = .ok { h with buffer := h.buffer.set p.idx e' } := by
  obtain ⟨hp, hget⟩ := read_eq_ok.1 hr
  exact write_of_lt hp (List.getElem?_eq_some_iff.1 hget).1 e'

/-- A successful write: the entry replaced, the allocation and the counts kept. -/
theorem write_eq_ok (hw : h.write p e = .ok h') :
    p.alloc = h.alloc ∧ p.idx < h.buffer.length ∧ h' = { h with buffer := h.buffer.set p.idx e } := by
  unfold write at hw
  split_ifs at hw with h1 h2
  · exact ⟨h1, h2, (Except.ok.inj hw).symm⟩

theorem read_write_self (hw : h.write p e = .ok h') : h'.read p = .ok e := by
  obtain ⟨hp, hlt, rfl⟩ := write_eq_ok hw
  exact read_of_getElem? hp (by simp [hlt])

theorem read_write_of_ne (hw : h.write p e = .ok h') (hq : q.idx ≠ p.idx) :
    h'.read q = h.read q := by
  obtain ⟨-, -, rfl⟩ := write_eq_ok hw
  simp [read, List.getElem?_set, Ne.symm hq]

end LinExprHeap

/-! ## `newLinExpr` and `deleteAllLinExpr` -/

section Calls
variable [Zero K]

/-- The growth in `newLinExpr`: a new allocation of `2*n_linexpr+1` entries, the first
`n_linexpr` copied from the old one (`VG_(memcpy)`), which is freed; `max_linexpr` becomes
`2*max_linexpr+1`. -/
def LinExprHeap.grow (h : LinExprHeap K) : LinExprHeap K where
  buffer := (List.range (2 * h.nLinexpr + 1)).map fun i =>
    if i < h.nLinexpr then h.buffer.getD i .blank else .blank
  nLinexpr := h.nLinexpr
  maxLinexpr := 2 * h.maxLinexpr + 1
  alloc := h.alloc + 1

/-- `newLinExpr`: grow when `n_linexpr == max_linexpr`, then hand out entry `n_linexpr`
with `ndep = 0`. -/
def newLinExpr (h : LinExprHeap K) : LinExprHeap K × LinPtr :=
  let h := if h.nLinexpr = h.maxLinexpr then h.grow else h
  ({ h with
      buffer := h.buffer.modify (fun e => { e with ndep := 0 }) h.nLinexpr
      nLinexpr := h.nLinexpr + 1 },
    ⟨h.alloc, h.nLinexpr⟩)

/-- `deleteAllLinExpr`: every entry is free again; the allocation stays. -/
def deleteAllLinExpr (h : LinExprHeap K) : LinExprHeap K := { h with nLinexpr := 0 }

/-- The calls that change the buffer's shape. -/
inductive BufferCall where
  | newLinExpr
  | deleteAllLinExpr
  deriving DecidableEq, Repr

/-- The buffer after a call. -/
def BufferCall.apply : BufferCall → LinExprHeap K → LinExprHeap K
  | .newLinExpr, h => (Derivgrind.newLinExpr h).1
  | .deleteAllLinExpr, h => Derivgrind.deleteAllLinExpr h

/-- The buffer after a sequence of calls. -/
def runBufferCalls (cs : List BufferCall) (h : LinExprHeap K) : LinExprHeap K :=
  cs.foldl (fun h c => c.apply h) h

variable {h : LinExprHeap K}

/-- The entry handed out is entry `n_linexpr` of the allocation after the call. -/
@[simp] theorem newLinExpr_snd :
    (newLinExpr h).2 = ⟨(newLinExpr h).1.alloc, h.nLinexpr⟩ := by
  unfold newLinExpr; split_ifs <;> rfl

@[simp] theorem newLinExpr_nLinexpr : (newLinExpr h).1.nLinexpr = h.nLinexpr + 1 := by
  unfold newLinExpr; split_ifs <;> rfl

theorem newLinExpr_of_eq (hf : h.nLinexpr = h.maxLinexpr) :
    (newLinExpr h).1 = { h.grow with
      buffer := h.grow.buffer.modify (fun e => { e with ndep := 0 }) h.nLinexpr
      nLinexpr := h.nLinexpr + 1 } := by
  unfold newLinExpr; rw [if_pos hf]; rfl

theorem newLinExpr_of_ne (hf : h.nLinexpr ≠ h.maxLinexpr) :
    (newLinExpr h).1 = { h with
      buffer := h.buffer.modify (fun e => { e with ndep := 0 }) h.nLinexpr
      nLinexpr := h.nLinexpr + 1 } := by
  unfold newLinExpr; rw [if_neg hf]

theorem grow_getElem?_of_lt (hi : h.Inv) {i : Nat} (hlt : i < h.nLinexpr) :
    h.grow.buffer[i]? = h.buffer[i]? := by
  have hl : i < h.buffer.length := by have := hi.n_le_max; have := hi.length_eq; omega
  simp [LinExprHeap.grow, hlt, List.getElem?_eq_getElem hl, List.getElem?_range (by omega : i < 2 * h.nLinexpr + 1)]

/-- The growth is taken exactly when the buffer is full. -/
theorem newLinExpr_alloc :
    (newLinExpr h).1.alloc = if h.nLinexpr = h.maxLinexpr then h.alloc + 1 else h.alloc := by
  unfold newLinExpr; split_ifs <;> rfl

/-- Everything a call of `newLinExpr` does to a well-shaped buffer. -/
theorem newLinExpr_spec (hi : h.Inv) :
    let h' := (newLinExpr h).1
    h'.Inv ∧
    (h'.alloc ≠ h.alloc ↔ h.nLinexpr = h.maxLinexpr) ∧
    (h.nLinexpr = h.maxLinexpr →
      h'.buffer.length = 2 * h.nLinexpr + 1 ∧ h'.maxLinexpr = 2 * h.nLinexpr + 1) ∧
    (∀ i < h.nLinexpr, h'.buffer[i]? = h.buffer[i]?) ∧
    (∃ e, h'.buffer[h.nLinexpr]? = some e ∧ e.ndep = 0) := by
  intro h'
  have hn : h'.nLinexpr = h.nLinexpr + 1 := newLinExpr_nLinexpr
  by_cases hf : h.nLinexpr = h.maxLinexpr
  · have hh' : h' = _ := newLinExpr_of_eq hf
    have hlen : h'.buffer.length = 2 * h.nLinexpr + 1 := by
      simp [hh', LinExprHeap.grow]
    have hmax : h'.maxLinexpr = 2 * h.nLinexpr + 1 := by
      simp [hh', LinExprHeap.grow, hf]
    refine ⟨⟨by omega, by rw [hlen, hmax]⟩, by simp [hh', LinExprHeap.grow, hf],
      fun _ => ⟨hlen, hmax⟩, fun i hlt => ?_, ?_⟩
    · rw [hh', List.getElem?_modify, grow_getElem?_of_lt hi hlt]
      simp [Nat.ne_of_gt hlt]
    · simp [hh', List.getElem?_modify, LinExprHeap.grow,
        List.getElem?_range (by omega : h.nLinexpr < 2 * h.nLinexpr + 1)]
  · have hh' : h' = _ := newLinExpr_of_ne hf
    have hlt : h.nLinexpr < h.buffer.length := by
      have := hi.n_le_max; have := hi.length_eq; omega
    have hmax : h'.maxLinexpr = h.maxLinexpr := by rw [hh']
    refine ⟨⟨by have := hi.n_le_max; omega, by simp [hh', hi.length_eq]⟩,
      by simp [hh', hf], fun h => absurd h hf, fun i hlt => ?_, ?_⟩
    · simp [hh', List.getElem?_modify, Nat.ne_of_gt hlt]
    · simp [hh', List.getElem?_modify, List.getElem?_eq_getElem hlt]

omit [Zero K] in
theorem deleteAllLinExpr_inv (hi : h.Inv) : (deleteAllLinExpr h).Inv :=
  ⟨Nat.zero_le _, hi.length_eq⟩

theorem BufferCall.apply_inv (c : BufferCall) (hi : h.Inv) : (c.apply h).Inv := by
  cases c
  · exact (newLinExpr_spec hi).1
  · exact deleteAllLinExpr_inv hi

theorem runBufferCalls_inv (cs : List BufferCall) (hi : h.Inv) : (runBufferCalls cs h).Inv := by
  induction cs generalizing h with
  | nil => exact hi
  | cons c cs ih => exact ih (c.apply_inv hi)

/-- **The buffer keeps its shape.** After any sequence of calls from the initial globals,
`n_linexpr ≤ max_linexpr` and the allocation has `max_linexpr` entries; and the next
`newLinExpr` grows the buffer exactly when it is full, to `2*n_linexpr+1` entries, which is
then also `max_linexpr`, keeps the entries in use, and hands out entry `n_linexpr` (the new
`n_linexpr - 1`, below the new `max_linexpr`) with `ndep = 0`. -/
theorem bufferLinexpr_shape (cs : List BufferCall) :
    let h : LinExprHeap K := runBufferCalls cs .initial
    h.nLinexpr ≤ h.maxLinexpr ∧ h.buffer.length = h.maxLinexpr ∧
    let (h', p) := newLinExpr h
    (h'.alloc ≠ h.alloc ↔ h.nLinexpr = h.maxLinexpr) ∧
    (h.nLinexpr = h.maxLinexpr →
      h'.buffer.length = 2 * h.nLinexpr + 1 ∧ h'.maxLinexpr = 2 * h.nLinexpr + 1) ∧
    (∀ i < h.nLinexpr, h'.buffer[i]? = h.buffer[i]?) ∧
    p = ⟨h'.alloc, h'.nLinexpr - 1⟩ ∧ h'.nLinexpr - 1 < h'.maxLinexpr ∧
    ∃ e, h'.read p = .ok e ∧ e.ndep = 0 := by
  intro h
  have hi : h.Inv := runBufferCalls_inv cs ⟨le_rfl, rfl⟩
  obtain ⟨hi', hgrow, hsize, hkeep, e, he, hndep⟩ := newLinExpr_spec hi
  have hn' := hi'.n_le_max
  simp only [newLinExpr_nLinexpr] at hn' ⊢
  refine ⟨hi.n_le_max, hi.length_eq, hgrow, hsize, hkeep, by simp, by omega,
    e, LinExprHeap.read_of_getElem? rfl (by simpa using he), hndep⟩

end Calls

end Derivgrind
