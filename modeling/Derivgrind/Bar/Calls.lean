import Derivgrind.Bar.Forward
import Derivgrind.Bar.Normalize

/-!
# Derivgrind.Bar.Calls

The buffer of `dg_bar.c` as a state machine. Its transitions are the calls a client makes:
`newLinExpr`, `deleteAllLinExpr`, the four operations and `normalizeLinExpr` (`LinCall`). A
call either faults, where C would have undefined behaviour, or returns the new buffer.

The invariant is `LinExprHeap.WellFormed`: the shape of `bufferLinexpr_shape` (`n_linexpr` at
most `max_linexpr`, which is the length of the allocation) and, for every entry of the
allocation, `ndep` at most `MAX_NDEP`, so that the first `ndep` slots of a record are its
dependencies. Each call that returns keeps it, the copy loops, the merge sort and the merging
loop of `normalizeLinExpr` included: those loops only succeed when every slot they write is
below `MAX_NDEP`, and the sort only writes records it has read. So every buffer a run of
calls reaches from the initial globals is well formed (`runLinCalls_wellFormed`): the
overflows of the code show as faults, never as a record that claims more dependencies than
it has slots.
-/

namespace Derivgrind

variable {K : Type}

namespace LinExprHeap

/-- No entry of the allocation claims more dependencies than a record has slots. -/
def Bounded (h : LinExprHeap K) : Prop :=
  ∀ (i : Nat) (e : LinExpr K), h.buffer[i]? = some e → e.ndep ≤ maxNdep

/-- The invariant of the buffer: its shape, and every entry bounded. -/
structure WellFormed (h : LinExprHeap K) : Prop where
  inv : h.Inv
  bounded : h.Bounded

variable {h h' : LinExprHeap K} {p : LinPtr} {e : LinExpr K}

theorem Bounded.read (hb : h.Bounded) (hr : h.read p = .ok e) : e.ndep ≤ maxNdep :=
  hb _ _ (read_eq_ok.1 hr).2

/-- Writing a bounded record keeps the invariant. -/
theorem WellFormed.write (hw : h.WellFormed) (hwr : h.write p e = .ok h')
    (he : e.ndep ≤ maxNdep) : h'.WellFormed := by
  obtain ⟨-, -, rfl⟩ := write_eq_ok hwr
  refine ⟨⟨hw.inv.n_le_max, by simpa using hw.inv.length_eq⟩, fun i e' hi => ?_⟩
  rw [List.getElem?_set] at hi
  split_ifs at hi with hp
  · exact Option.some.inj hi ▸ he
  · exact hw.bounded i e' hi

/-- Writing a record read from the buffer keeps the invariant. -/
theorem WellFormed.write_read (hw : h.WellFormed) {q : LinPtr} (hr : h.read q = .ok e)
    (hwr : h.write p e = .ok h') : h'.WellFormed :=
  hw.write hwr (hw.bounded.read hr)

end LinExprHeap

/-! ## `newLinExpr` and `deleteAllLinExpr` -/

section Calls
variable [Zero K] {h : LinExprHeap K}

theorem LinExprHeap.Bounded.grow (hb : h.Bounded) : h.grow.Bounded := by
  intro i e hi
  obtain ⟨j, -, rfl⟩ := List.mem_map.1 (List.getElem?_mem hi)
  split_ifs
  · rw [List.getD_eq_getElem?_getD]
    cases hj : h.buffer[j]? with
    | none => exact Nat.zero_le _
    | some e' => exact hb j e' hj
  · exact Nat.zero_le _

omit [Zero K] in
theorem LinExprHeap.Bounded.modify_ndep (hb : h.Bounded) (n i : Nat) (e : LinExpr K)
    (hi : (h.buffer.modify (fun e => { e with ndep := 0 }) n)[i]? = some e) : e.ndep ≤ maxNdep := by
  rw [List.getElem?_modify] at hi
  cases hh : h.buffer[i]? with
  | none => simp [hh] at hi
  | some e' =>
    rw [hh] at hi
    split_ifs at hi <;> obtain rfl := Option.some.inj hi
    exacts [Nat.zero_le _, hb i e' hh]

theorem newLinExpr_wellFormed (hw : h.WellFormed) : (newLinExpr h).1.WellFormed := by
  refine ⟨(newLinExpr_spec hw.inv).1, ?_⟩
  unfold newLinExpr
  split_ifs
  · exact hw.bounded.grow.modify_ndep _
  · exact hw.bounded.modify_ndep _

omit [Zero K] in
theorem deleteAllLinExpr_wellFormed (hw : h.WellFormed) : (deleteAllLinExpr h).WellFormed :=
  ⟨deleteAllLinExpr_inv hw.inv, hw.bounded⟩

end Calls

/-! ## The operations -/

theorem slotSet_eq_ok {α : Type} {arr arr' : Fin maxNdep → α} {i : Nat} {x : α}
    (h : slotSet arr i x = .ok arr') : i < maxNdep := by
  by_contra hi
  rw [slotSet_of_le (Nat.le_of_not_lt hi)] at h
  cases h

section Ops
variable [Field K] {h h' : LinExprHeap K} {a b : LinPtr}

/-- A copy loop that returns keeps `ndep` and wrote only slots below `MAX_NDEP`. -/
theorem copyDeps_eq_ok {k : K} {src res r : LinExpr K} {off : Nat} :
    ∀ {count : Nat}, copyDeps k src off count res = .ok r →
      r.ndep = res.ndep ∧ (count = 0 ∨ off + count ≤ maxNdep)
  | 0, hc => by cases hc; exact ⟨rfl, .inl rfl⟩
  | n + 1, hc => by
    obtain ⟨r1, h1, hc⟩ := except_bind_eq_ok.1 hc
    obtain ⟨x, -, hc⟩ := except_bind_eq_ok.1 hc
    obtain ⟨idn, hid, hc⟩ := except_bind_eq_ok.1 hc
    obtain ⟨y, -, hc⟩ := except_bind_eq_ok.1 hc
    obtain ⟨jac, -, hc⟩ := except_bind_eq_ok.1 hc
    cases hc
    exact ⟨(copyDeps_eq_ok h1).1, .inr (slotSet_eq_ok hid)⟩

/-- A linear combination that returns leaves a well-formed buffer: the new entry's
`a->ndep + b->ndep` is at most `MAX_NDEP`, or the second copy loop would have faulted. -/
theorem linearCombinationOfDependencies_wellFormed {k l : K} {res : LinPtr}
    (hw : h.WellFormed) (hl : linearCombinationOfDependencies k a l b h = .ok (h', res)) :
    h'.WellFormed := by
  rcases hnew : newLinExpr h with ⟨h1, p⟩
  have hw1 : h1.WellFormed := by simpa [hnew] using newLinExpr_wellFormed hw
  simp only [linearCombinationOfDependencies, hnew, except_bind_eq_ok, except_pure,
    Except.ok.injEq, Prod.mk.injEq] at hl
  obtain ⟨ea, hea, eb, -, r, -, r1, hc1, r2, hc2, h2, hw2, rfl, -⟩ := hl
  have hn1 := (copyDeps_eq_ok hc1).1
  obtain ⟨hn2, hfit⟩ := copyDeps_eq_ok hc2
  have hea' := hw1.bounded.read hea
  refine hw1.write hw2 ?_
  simp only at hn1
  omega

omit [Field K] in
theorem setValue_wellFormed {f : K → K → K} {res res' : LinPtr} (hw : h.WellFormed)
    (hs : setValue f a b (h, res) = .ok (h', res')) : h'.WellFormed := by
  obtain ⟨ea, -, hs⟩ := except_bind_eq_ok.1 hs
  obtain ⟨eb, -, hs⟩ := except_bind_eq_ok.1 hs
  obtain ⟨r, hr, hs⟩ := except_bind_eq_ok.1 hs
  obtain ⟨h2, hw2, hs⟩ := except_bind_eq_ok.1 hs
  cases hs
  have hb := hw.bounded.read hr
  exact hw.write hw2 hb

/-- Each of the four operations that returns leaves a well-formed buffer. -/
theorem LinOp.call_wellFormed (op : LinOp) {res : LinPtr} (hw : h.WellFormed)
    (hc : op.call a b h = .ok (h', res)) : h'.WellFormed := by
  have hlin : ∀ {k l : K} {f : K → K → K},
      (linearCombinationOfDependencies k a l b h >>= setValue f a b) = .ok (h', res) →
        h'.WellFormed := fun hc => by
    obtain ⟨⟨h1, r1⟩, hl, hs⟩ := except_bind_eq_ok.1 hc
    exact setValue_wellFormed (linearCombinationOfDependencies_wellFormed hw hl) hs
  cases op
  case add | sub => exact hlin hc
  case mul | div =>
    obtain ⟨ea, -, hc⟩ := except_bind_eq_ok.1 hc
    obtain ⟨eb, -, hc⟩ := except_bind_eq_ok.1 hc
    exact hlin hc

end Ops

/-! ## `normalizeLinExpr` -/

section Normalize
variable {h h' : LinExprHeap K} {a tmp : LinPtr}

/-- The merge loop of the sort only copies records it has read. -/
theorem mergeRecords_wellFormed {sep hi : Nat} :
    ∀ {rem fromM sepM : Nat} {h h' : LinExprHeap K}, h.WellFormed →
      mergeRecords a tmp sep hi rem fromM sepM h = .ok h' → h'.WellFormed
  | 0, _, _, _, _, hw, hm => by cases hm; exact hw
  | rem + 1, fromM, sepM, h, h', hw, hm => by
    rw [mergeRecords] at hm
    -- the comparison only reads; the continuation copies `a[from_m]` or `a[sep_m]` to `tmp`
    split_ifs at hm <;> repeat obtain ⟨_, _, hm⟩ := except_bind_eq_ok.1 hm
    all_goals
      dsimp only at hm
      split at hm
      all_goals
        obtain ⟨e, he, hm⟩ := except_bind_eq_ok.1 hm
        obtain ⟨h1, hw1, hm⟩ := except_bind_eq_ok.1 hm
        exact mergeRecords_wellFormed (hw.write_read he hw1) hm

/-- The copy-back loop of the sort only copies records it has read. -/
theorem copyRecordsBack_wellFormed {hi : Nat} :
    ∀ {rem : Nat} {h h' : LinExprHeap K}, h.WellFormed →
      copyRecordsBack a tmp hi rem h = .ok h' → h'.WellFormed
  | 0, _, _, hw, hm => by cases hm; exact hw
  | rem + 1, h, h', hw, hm => by
    obtain ⟨e, he, hm⟩ := except_bind_eq_ok.1 hm
    obtain ⟨h1, hw1, hm⟩ := except_bind_eq_ok.1 hm
    exact copyRecordsBack_wellFormed (hw.write_read he hw1) hm

/-- The merge sort only moves records around the buffer. -/
theorem mergesortLinExpr_wellFormed {lo hi : Nat} {h h' : LinExprHeap K} (hw : h.WellFormed)
    (hm : mergesortLinExpr a lo hi tmp h = .ok h') : h'.WellFormed := by
  by_cases hlen : hi - lo ≤ 1
  · rw [mergesortLinExpr_of_le_one hlen] at hm
    cases hm
    exact hw
  · rw [mergesortLinExpr_of_one_lt (by omega)] at hm
    obtain ⟨h1, hm1, hm⟩ := except_bind_eq_ok.1 hm
    obtain ⟨h2, hm2, hm⟩ := except_bind_eq_ok.1 hm
    obtain ⟨h3, hm3, hm⟩ := except_bind_eq_ok.1 hm
    exact copyRecordsBack_wellFormed (mergeRecords_wellFormed (mergesortLinExpr_wellFormed
      (mergesortLinExpr_wellFormed hw hm1) hm2) hm3) hm
termination_by hi - lo
decreasing_by all_goals omega

variable [Field K]

/-- The merging loop that returns wrote each run's dependency below `MAX_NDEP`. -/
theorem mergeRuns_ndep_le {e ret r : LinExpr K} {i : Nat} (hret : ret.ndep ≤ maxNdep)
    (hm : mergeRuns e i ret = .ok r) : r.ndep ≤ maxNdep := by
  rw [mergeRuns] at hm
  split_ifs at hm with hi
  · obtain ⟨id, -, hm⟩ := except_bind_eq_ok.1 hm
    obtain ⟨j, -, hm⟩ := except_bind_eq_ok.1 hm
    obtain ⟨q, -, hm⟩ := except_bind_eq_ok.1 hm
    obtain ⟨idn, hid, hm⟩ := except_bind_eq_ok.1 hm
    obtain ⟨jac, -, hm⟩ := except_bind_eq_ok.1 hm
    have := q.2
    exact mergeRuns_ndep_le (Nat.succ_le_of_lt (slotSet_eq_ok hid)) hm
  · cases hm
    exact hret
termination_by e.ndep - i
decreasing_by omega

/-- A normalization that returns leaves a well-formed buffer. -/
theorem normalizeLinExpr_wellFormed (hw : h.WellFormed) (hn : normalizeLinExpr a h = .ok h') :
    h'.WellFormed := by
  rcases hnew : newLinExpr h with ⟨h1, ret⟩
  have hw1 : h1.WellFormed := by simpa [hnew] using newLinExpr_wellFormed hw
  simp only [normalizeLinExpr, hnew] at hn
  obtain ⟨ea, -, hn⟩ := except_bind_eq_ok.1 hn
  obtain ⟨h2, hm2, hn⟩ := except_bind_eq_ok.1 hn
  obtain ⟨r0, -, hn⟩ := except_bind_eq_ok.1 hn
  obtain ⟨ea', -, hn⟩ := except_bind_eq_ok.1 hn
  obtain ⟨r, hr, hn⟩ := except_bind_eq_ok.1 hn
  obtain ⟨h3, hw3, hn⟩ := except_bind_eq_ok.1 hn
  have hb : r.ndep ≤ maxNdep := mergeRuns_ndep_le (Nat.zero_le _) hr
  exact ((mergesortLinExpr_wellFormed hw1 hm2).write hw3 hb).write hn hb

end Normalize

/-! ## Runs of calls -/

/-- The calls a client makes on the buffer: `newLinExpr`, `deleteAllLinExpr`, one of the four
operations on two entries, and `normalizeLinExpr` of an entry. -/
inductive LinCall where
  | newLinExpr
  | deleteAllLinExpr
  | op (o : LinOp) (a b : LinPtr)
  | normalizeLinExpr (a : LinPtr)
  deriving DecidableEq, Repr

section Run
variable [Field K] {h h' : LinExprHeap K}

/-- The buffer after a call, or the fault it runs into. -/
def LinCall.step : LinCall → LinExprHeap K → Except LinExprFault (LinExprHeap K)
  | .newLinExpr, h => .ok (Derivgrind.newLinExpr h).1
  | .deleteAllLinExpr, h => .ok (Derivgrind.deleteAllLinExpr h)
  | .op o a b, h => Prod.fst <$> o.call a b h
  | .normalizeLinExpr a, h => Derivgrind.normalizeLinExpr a h

/-- The entries a call reads. -/
def LinCall.operands : LinCall → List LinPtr
  | .op _ a b => [a, b]
  | .normalizeLinExpr a => [a]
  | _ => []

/-- The buffer after a sequence of calls, or the first fault. -/
def runLinCalls : List LinCall → LinExprHeap K → Except LinExprFault (LinExprHeap K)
  | [], h => .ok h
  | c :: cs, h => c.step h >>= runLinCalls cs

theorem LinCall.step_wellFormed (c : LinCall) (hw : h.WellFormed) (hs : c.step h = .ok h') :
    h'.WellFormed := by
  cases c with
  | newLinExpr => cases hs; exact newLinExpr_wellFormed hw
  | deleteAllLinExpr => cases hs; exact deleteAllLinExpr_wellFormed hw
  | op o a b =>
    obtain ⟨⟨h1, p⟩, hc, hs⟩ := except_bind_eq_ok.1 hs
    cases hs
    exact o.call_wellFormed hw hc
  | normalizeLinExpr a => exact normalizeLinExpr_wellFormed hw hs

theorem runLinCalls_wellFormed_of : ∀ (cs : List LinCall) {h h' : LinExprHeap K},
    h.WellFormed → runLinCalls cs h = .ok h' → h'.WellFormed
  | [], _, _, hw, hr => by cases hr; exact hw
  | c :: cs, _, _, hw, hr => by
    obtain ⟨h1, hs, hr⟩ := except_bind_eq_ok.1 hr
    exact runLinCalls_wellFormed_of cs (c.step_wellFormed hw hs) hr

/-- **Every buffer a run of calls reaches is well formed.** After any sequence of calls from
the initial globals that runs into no fault, `n_linexpr ≤ max_linexpr`, the allocation has
`max_linexpr` entries, and no entry has more than `MAX_NDEP` dependencies. -/
theorem runLinCalls_wellFormed (cs : List LinCall) (hr : runLinCalls cs .initial = .ok h) :
    h.nLinexpr ≤ h.maxLinexpr ∧ h.buffer.length = h.maxLinexpr ∧
      ∀ (i : Nat) (e : LinExpr K), h.buffer[i]? = some e → e.ndep ≤ maxNdep := by
  have h0 : (LinExprHeap.initial : LinExprHeap K).WellFormed :=
    ⟨⟨le_rfl, rfl⟩, fun i e he => by simp [LinExprHeap.initial] at he⟩
  obtain ⟨⟨hn, hl⟩, hb⟩ := runLinCalls_wellFormed_of cs h0 hr
  exact ⟨hn, hl, hb⟩

/-- **A full buffer is never read.** Every call that reads entries takes its result entry
from `newLinExpr` first; on a full buffer that moves the buffer to a new allocation and frees
the old one, so the call reads its live operands through freed pointers. -/
theorem LinCall.step_of_full (c : LinCall) (hi : h.Inv) (hfull : h.nLinexpr = h.maxLinexpr)
    (hc : c.operands ≠ []) (hlive : ∀ p ∈ c.operands, h.Live p) :
    c.step h = .error .freed := by
  cases c with
  | newLinExpr | deleteAllLinExpr => exact absurd rfl hc
  | op o a b =>
    obtain ⟨hadd, hsub, hmul, hdiv⟩ :=
      linExprOps_of_full hi hfull (hlive a (by simp [operands])) (hlive b (by simp [operands]))
    cases o <;> simp only [step, LinOp.call, hadd, hsub, hmul, hdiv] <;> rfl
  | normalizeLinExpr a => exact normalizeLinExpr_of_full hfull (hlive a (by simp [operands])).1

/-- After the first `newLinExpr` from the initial globals the buffer holds one entry and is
full: the sum of that entry with itself reads freed memory. -/
theorem step_of_full_addSelf :
    (LinCall.op .add ⟨1, 0⟩ ⟨1, 0⟩).step (newLinExpr (.initial : LinExprHeap ℚ)).1 =
      .error .freed :=
  LinCall.step_of_full _ ⟨by decide, rfl⟩ rfl (by decide)
    (fun p hp => by simp only [LinCall.operands, List.mem_cons, List.not_mem_nil, or_false,
      or_self] at hp; exact hp ▸ ⟨rfl, Nat.zero_lt_one⟩)

end Run

end Derivgrind
