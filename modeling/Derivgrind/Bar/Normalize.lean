import Derivgrind.Bar.LinExprOps

/-!
# Derivgrind.Bar.Normalize

`normalizeLinExpr(a)` is meant to sort the dependencies of `a` by identifier with
`mergesortLinExpr` and then merge each run of one identifier into a single dependency.

`mergesortLinExpr(a, from, to, tmp)` is documented as sorting the `(identifier, jacobian)`
pairs of `a` within `[from, to)`, but it indexes `LinExpr* a` and `LinExpr* tmp` as arrays of
records: `tmp[i] = a[from_m]` copies the whole record `from_m` places after `a`. It compares
the identifiers of `a` and moves the records of the buffer that follow `a` and `tmp`; the
pairs of `a` are never moved. On an unsorted `a` it replaces `a` by the record after it
(`mergesortLinExpr_moves_records`), and `normalizeLinExpr` inherits this
(`normalizeLinExpr_replaces_record`).

The merging loop reads `a->identifier[i]` before it tests `i < a->ndep`: it always reads the
slot `ndep`, which for `ndep = MAX_NDEP` is past the array (`mergeRuns_reads_past_slots`).
Below that bound the loop does what it is for. `RunsMerged` says what it computes: each
maximal run of one identifier becomes one dependency with the run's jacobians summed, which
keeps the gradient and turns identifiers in order into strictly increasing ones. The loop
produces exactly that (`mergeRuns_ok`), so `normalizeLinExpr` leaves in `a` the value and the
gradient of the record the sort left there (`normalizeLinExpr_merges`), and normalizes a record
the sort does not touch correctly (`normalizeLinExpr_of_le_one`). Like the arithmetic, it
takes its scratch entry from `newLinExpr` before reading `a`, so on a full buffer it reads
freed memory (`normalizeLinExpr_of_full`).
-/

namespace Derivgrind

variable {K : Type}

/-! ## `mergesortLinExpr` -/

/-- The merge loop of `mergesortLinExpr` with `rem` rounds left and the cursors `from_m`
and `sep_m`: it compares `a->identifier[from_m]` with `a->identifier[sep_m]` and copies the
record `a[from_m]` or `a[sep_m]` to `tmp[i]`, for `i = to - rem`. -/
def mergeRecords (a tmp : LinPtr) (sep hi : Nat) :
    (rem fromM sepM : Nat) → LinExprHeap K → Except LinExprFault (LinExprHeap K)
  | 0, _, _, h => .ok h
  | rem + 1, fromM, sepM, h => do
    let takeFrom ← if hi ≤ sepM then pure true
      else if fromM < sep then do
        let ea ← h.read a
        let x ← slotGet ea.identifier fromM
        let y ← slotGet ea.identifier sepM
        pure (decide (x < y))
      else pure false
    if takeFrom then do
      let e ← h.read (a.offset fromM)
      let h ← h.write (tmp.offset (hi - (rem + 1))) e
      mergeRecords a tmp sep hi rem (fromM + 1) sepM h
    else do
      let e ← h.read (a.offset sepM)
      let h ← h.write (tmp.offset (hi - (rem + 1))) e
      mergeRecords a tmp sep hi rem fromM (sepM + 1) h

/-- The copy-back loop of `mergesortLinExpr` with `rem` rounds left: `a[i] = tmp[i]` for
`i = to - rem`. -/
def copyRecordsBack (a tmp : LinPtr) (hi : Nat) :
    Nat → LinExprHeap K → Except LinExprFault (LinExprHeap K)
  | 0, h => .ok h
  | rem + 1, h => do
    let e ← h.read (tmp.offset (hi - (rem + 1)))
    let h ← h.write (a.offset (hi - (rem + 1))) e
    copyRecordsBack a tmp hi rem h

/-- `mergesortLinExpr(a, from, to, tmp)`, with `lo` and `hi` for `from` and `to`. -/
def mergesortLinExpr (a : LinPtr) (lo hi : Nat) (tmp : LinPtr) (h : LinExprHeap K) :
    Except LinExprFault (LinExprHeap K) :=
  if hi - lo ≤ 1 then .ok h else do
    let h ← mergesortLinExpr a lo ((lo + hi) / 2) tmp h
    let h ← mergesortLinExpr a ((lo + hi) / 2) hi tmp h
    let h ← mergeRecords a tmp ((lo + hi) / 2) hi (hi - lo) lo ((lo + hi) / 2) h
    copyRecordsBack a tmp hi (hi - lo) h
termination_by hi - lo

section Sorting
variable {a tmp : LinPtr} {lo hi : Nat} {h : LinExprHeap K}

theorem mergesortLinExpr_of_le_one (hlen : hi - lo ≤ 1) :
    mergesortLinExpr a lo hi tmp h = .ok h := by
  rw [mergesortLinExpr, if_pos hlen]

theorem mergesortLinExpr_of_one_lt (hlen : 1 < hi - lo) :
    mergesortLinExpr a lo hi tmp h = (do
      let h ← mergesortLinExpr a lo ((lo + hi) / 2) tmp h
      let h ← mergesortLinExpr a ((lo + hi) / 2) hi tmp h
      let h ← mergeRecords a tmp ((lo + hi) / 2) hi (hi - lo) lo ((lo + hi) / 2) h
      copyRecordsBack a tmp hi (hi - lo) h) := by
  rw [mergesortLinExpr, if_neg (by omega)]

/-- An unsorted `a` with two dependencies, the record `a1` after it, and room for `tmp`
after them: sorting `[0, 2)` replaces `a` by `a1` and the record after `a` by `a`. -/
theorem mergesortLinExpr_moves_records :
    let a0 : LinExpr ℚ := ⟨5, 2, fun i => if i.1 = 0 then 2 else 1, fun _ => 1⟩
    let a1 : LinExpr ℚ := ⟨7, 0, fun _ => 0, fun _ => 0⟩
    let h : LinExprHeap ℚ := ⟨[a0, a1, .blank, .blank, .blank, .blank, .blank], 2, 7, 3⟩
    ∃ h', mergesortLinExpr ⟨3, 0⟩ 0 2 ⟨3, 2⟩ h = .ok h' ∧
      h'.read ⟨3, 0⟩ = .ok a1 ∧ h'.read ⟨3, 1⟩ = .ok a0 := by
  intro a0 a1 h
  rw [mergesortLinExpr_of_one_lt (by decide)]
  simp only [mergesortLinExpr_of_le_one (by decide : (0 + 2) / 2 - 0 ≤ 1),
    mergesortLinExpr_of_le_one (by decide : 2 - (0 + 2) / 2 ≤ 1), except_ok_bind]
  exact ⟨_, rfl, rfl, rfl⟩

end Sorting

/-! ## `normalizeLinExpr` -/

variable [Field K]

/-- The inner `while` of `normalizeLinExpr`: it adds `a->jacobian[i]` to the sum while
`a->identifier[i]==id && i<a->ndep`, testing the identifier first. It stops at an index at
least the one it starts at. -/
def sumRun (e : LinExpr K) (id i : Nat) (sum : K) :
    Except LinExprFault {p : Nat × K // i ≤ p.1} := do
  let x ← slotGet e.identifier i
  if x = id ∧ i < e.ndep then do
    let j ← slotGet e.jacobian i
    let r ← sumRun e id (i + 1) (sum + j)
    pure ⟨r.1, Nat.le_of_succ_le r.2⟩
  else pure ⟨(i, sum), le_rfl⟩
termination_by e.ndep - i
decreasing_by omega

/-- The `for` loop of `normalizeLinExpr` from index `i` on: each run of one identifier
becomes the next dependency of `ret`, with the run's jacobians summed. -/
def mergeRuns (e : LinExpr K) (i : Nat) (ret : LinExpr K) : Except LinExprFault (LinExpr K) :=
  if hi : i < e.ndep then do
    let id ← slotGet e.identifier i
    let j ← slotGet e.jacobian i
    let r ← sumRun e id (i + 1) j
    let identifier ← slotSet ret.identifier ret.ndep id
    let jacobian ← slotSet ret.jacobian ret.ndep r.1.2
    mergeRuns e r.1.1
      { ret with identifier := identifier, jacobian := jacobian, ndep := ret.ndep + 1 }
  else .ok ret
termination_by e.ndep - i
decreasing_by have := r.2; omega

section Runs
variable {e ret : LinExpr K} {i : Nat}

theorem mergeRuns_of_le (hi : e.ndep ≤ i) : mergeRuns e i ret = .ok ret := by
  rw [mergeRuns, dif_neg (by omega)]

/-- With `ndep = MAX_NDEP`, a run from `i ≤ MAX_NDEP` either reads slot `MAX_NDEP` or stops
below it. -/
theorem sumRun_full (hn : e.ndep = maxNdep) (id i : Nat) (sum : K) (hi : i ≤ maxNdep) :
    sumRun e id i sum = .error (.readPastSlots maxNdep) ∨
      ∃ r, sumRun e id i sum = .ok r ∧ r.1.1 < maxNdep := by
  rw [sumRun]
  rcases Nat.lt_or_eq_of_le hi with hlt | rfl
  · rw [slotGet_of_lt hlt, except_ok_bind]
    by_cases hx : e.identifier ⟨i, hlt⟩ = id
    · rw [if_pos ⟨hx, hn ▸ hlt⟩, slotGet_of_lt hlt, except_ok_bind]
      rcases sumRun_full hn id (i + 1) (sum + e.jacobian ⟨i, hlt⟩) hlt with he | ⟨r, hr, hrlt⟩
      · exact .inl (by rw [he]; rfl)
      · exact .inr ⟨_, by rw [hr]; rfl, hrlt⟩
    · rw [if_neg fun h => hx h.1]
      exact .inr ⟨_, rfl, hlt⟩
  · exact .inl (by rw [slotGet_of_le le_rfl]; rfl)
termination_by maxNdep - i

/-- **The merging loop reads past the slots.** With `ndep = MAX_NDEP`, whatever the
identifiers, the loop of `normalizeLinExpr` reads `identifier[MAX_NDEP]`: its last run
tests `a->identifier[i]==id` at `i = ndep` before `i<a->ndep`. -/
theorem mergeRuns_reads_past_slots (hn : e.ndep = maxNdep) (i : Nat) (ret : LinExpr K)
    (hi : i < maxNdep) (hret : ret.ndep ≤ i) :
    mergeRuns e i ret = .error (.readPastSlots maxNdep) := by
  rw [mergeRuns, dif_pos (hn ▸ hi), slotGet_of_lt hi, except_ok_bind, slotGet_of_lt hi,
    except_ok_bind]
  rcases sumRun_full hn _ (i + 1) _ hi with he | ⟨r, hr, hrlt⟩
  · rw [he]; rfl
  · have hstep := r.2
    rw [hr, except_ok_bind, slotSet_of_lt (by omega), except_ok_bind, slotSet_of_lt (by omega),
      except_ok_bind]
    exact mergeRuns_reads_past_slots hn _ _ hrlt (by simp only; omega)
termination_by maxNdep - i

end Runs

/-- `normalizeLinExpr(a)`: sort with a new entry `ret` as scratch, merge the runs into `ret`,
then `*a = *ret`. -/
def normalizeLinExpr (a : LinPtr) (h : LinExprHeap K) : Except LinExprFault (LinExprHeap K) := do
  let (h, ret) := newLinExpr h
  let ea ← h.read a
  let h ← mergesortLinExpr a 0 ea.ndep ret h
  let r ← h.read ret
  let ea ← h.read a
  let r ← mergeRuns ea 0 { r with ndep := 0, value := ea.value }
  let h ← h.write ret r
  h.write a r

/-- `normalizeLinExpr` from the results of its steps: the sort, the reads of `ret` and `a`
after it, and the merging loop; `a` ends up holding the merged record. -/
theorem normalizeLinExpr_of_steps {h h3 : LinExprHeap K} {a : LinPtr} {ea r ea3 r' : LinExpr K}
    (hea : (newLinExpr h).1.read a = .ok ea)
    (hsort : mergesortLinExpr a 0 ea.ndep (newLinExpr h).2 (newLinExpr h).1 = .ok h3)
    (hr : h3.read (newLinExpr h).2 = .ok r) (ha3 : h3.read a = .ok ea3)
    (hruns : mergeRuns ea3 0 { r with ndep := 0, value := ea3.value } = .ok r') :
    ∃ h', normalizeLinExpr a h = .ok h' ∧ h'.read a = .ok r' := by
  have hw := LinExprHeap.write_of_read_ok hr r'
  obtain ⟨hal, hget⟩ := LinExprHeap.read_eq_ok.1 ha3
  have hlt : a.idx < (h3.buffer.set (newLinExpr h).2.idx r').length := by
    rw [List.length_set]; exact (List.getElem?_eq_some_iff.1 hget).1
  have hw' := LinExprHeap.write_of_lt
    (h := { h3 with buffer := h3.buffer.set (newLinExpr h).2.idx r' }) hal hlt r'
  exact ⟨_, by simp only [normalizeLinExpr, hea, hsort, hr, ha3, hruns, hw, hw',
    except_ok_bind], LinExprHeap.read_write_self hw'⟩

/-- An unsorted `a` with two dependencies and the record `a1` after it: normalizing `a` gives
it the value and the (no) dependencies of `a1`. -/
theorem normalizeLinExpr_replaces_record :
    let a0 : LinExpr ℚ := ⟨5, 2, fun i => if i.1 = 0 then 2 else 1, fun _ => 1⟩
    let a1 : LinExpr ℚ := ⟨7, 0, fun _ => 0, fun _ => 0⟩
    let h : LinExprHeap ℚ := ⟨[a0, a1, .blank, .blank, .blank, .blank, .blank], 2, 7, 3⟩
    ∃ h' e, normalizeLinExpr ⟨3, 0⟩ h = .ok h' ∧ h'.read ⟨3, 0⟩ = .ok e ∧
      e.value = 7 ∧ e.ndep = 0 := by
  intro a0 a1 h
  obtain ⟨h3, hsort, hret, ha⟩ : ∃ h3, mergesortLinExpr ⟨3, 0⟩ 0 a0.ndep (newLinExpr h).2
      (newLinExpr h).1 = .ok h3 ∧ h3.read ⟨3, 2⟩ = .ok a1 ∧ h3.read ⟨3, 0⟩ = .ok a1 := by
    rw [mergesortLinExpr_of_one_lt (by decide)]
    simp only [mergesortLinExpr_of_le_one (by decide : (0 + a0.ndep) / 2 - 0 ≤ 1),
      mergesortLinExpr_of_le_one (by decide : a0.ndep - (0 + a0.ndep) / 2 ≤ 1), except_ok_bind]
    exact ⟨_, rfl, rfl, rfl⟩
  obtain ⟨h', hn, hread⟩ := normalizeLinExpr_of_steps
    (show (newLinExpr h).1.read ⟨3, 0⟩ = .ok a0 from rfl) hsort hret ha
    (mergeRuns_of_le (e := a1) (Nat.le_refl 0))
  exact ⟨h', _, hn, hread, rfl, rfl⟩

/-! ## What the merging loop computes -/

/-- How the merging loop of `normalizeLinExpr` turns the dependencies it reads into those it
writes: each maximal run of one identifier becomes one dependency, with the run's jacobians
summed. -/
inductive RunsMerged : List (Nat × K) → List (Nat × K) → Prop
  | nil : RunsMerged [] []
  | run {id : Nat} {ds rest out : List (Nat × K)} (hne : ds ≠ [])
      (hrun : ∀ d ∈ ds, d.1 = id) (hstop : ∀ d ∈ rest.head?, d.1 ≠ id)
      (tail : RunsMerged rest out) :
      RunsMerged (ds ++ rest) ((id, (ds.map Prod.snd).sum) :: out)

/-- A run of one identifier stands for that identifier with its jacobians summed. -/
theorem gradient_of_run {id : Nat} {ds : List (Nat × K)} (h : ∀ d ∈ ds, d.1 = id) (x : Nat) :
    gradient ds x = if id = x then (ds.map Prod.snd).sum else 0 := by
  induction ds with
  | nil => simp
  | cons d ds ih =>
    obtain ⟨i, j⟩ := d
    obtain rfl : i = id := h _ (List.mem_cons_self _ _)
    rw [gradient_cons, ih fun d hd => h d (List.mem_cons_of_mem _ hd)]
    split_ifs <;> simp

namespace RunsMerged

variable {ds out : List (Nat × K)}

/-- Merging runs keeps the gradient. -/
theorem gradient_eq (h : RunsMerged ds out) (x : Nat) : gradient out x = gradient ds x := by
  induction h with
  | nil => rfl
  | run _ hrun _ _ ih => rw [gradient_cons, gradient_append, gradient_of_run hrun, ih]

/-- Every identifier written is one that was read. -/
theorem ids_subset (h : RunsMerged ds out) : out.map Prod.fst ⊆ ds.map Prod.fst := by
  induction h with
  | nil => exact List.Subset.refl _
  | @run id ds rest out hne hrun _ _ ih =>
    obtain ⟨d, hd⟩ := List.exists_mem_of_ne_nil ds hne
    rw [List.map_cons, List.map_append, List.cons_subset]
    have hid : id ∈ ds.map Prod.fst := by rw [← hrun d hd]; exact List.mem_map_of_mem _ hd
    exact ⟨List.mem_append_left _ hid,
      ih.trans (List.subset_append_right _ _)⟩

/-- Runs of identifiers in order merge into strictly increasing identifiers. -/
theorem sorted (h : RunsMerged ds out) (hs : (ds.map Prod.fst).Pairwise (· ≤ ·)) :
    (out.map Prod.fst).Pairwise (· < ·) := by
  induction h with
  | nil => exact List.Pairwise.nil
  | @run id ds rest out hne hrun hstop tail ih =>
    rw [List.map_append, List.pairwise_append] at hs
    obtain ⟨-, hrest, hle⟩ := hs
    obtain ⟨d, hd⟩ := List.exists_mem_of_ne_nil ds hne
    have hid : id ∈ ds.map Prod.fst := by rw [← hrun d hd]; exact List.mem_map_of_mem _ hd
    refine List.pairwise_cons.2 ⟨fun y hy => ?_, ih hrest⟩
    have hy := tail.ids_subset hy
    cases rest with
    | nil => simp at hy
    | cons d' rest' =>
      rw [List.map_cons, List.pairwise_cons] at hrest
      have hlt : id < d'.1 :=
        lt_of_le_of_ne (hle _ hid _ (List.mem_cons_self _ _)) (hstop d' rfl).symm
      rcases List.mem_cons.1 hy with rfl | hy
      · exact hlt
      · exact hlt.trans_le (hrest.1 y hy)

end RunsMerged

/-! ## The merging loop with room -/

/-- Dependencies `i .. k-1` of a record. -/
def LinExpr.segment (e : LinExpr K) (i k : Nat) : List (Nat × K) :=
  (List.range' i (k - i)).map e.pair

namespace LinExpr

variable (e : LinExpr K)

theorem pair_of_lt {i : Nat} (h : i < maxNdep) :
    e.pair i = (e.identifier ⟨i, h⟩, e.jacobian ⟨i, h⟩) := dif_pos h

@[simp] theorem segment_self (i : Nat) : e.segment i i = [] := by
  simp [segment]

theorem segment_eq_cons {i k : Nat} (h : i < k) :
    e.segment i k = e.pair i :: e.segment (i + 1) k := by
  rw [segment, show k - i = k - (i + 1) + 1 by omega, List.range'_succ]; rfl

theorem segment_append {i j k : Nat} (hij : i ≤ j) (hjk : j ≤ k) :
    e.segment i j ++ e.segment j k = e.segment i k := by
  have h := List.range'_append_1 i (j - i) (k - j)
  rw [show i + (j - i) = j by omega, show k - j + (j - i) = k - i by omega] at h
  rw [segment, segment, segment, ← List.map_append, h]

theorem deps_eq_segment : e.deps = e.segment 0 e.ndep := by
  simp [deps, segment, List.range_eq_range']

/-- Writing slot `ndep` of both arrays and counting it adds one dependency at the end. -/
theorem deps_push (h : e.ndep < maxNdep) (x : Nat) (y : K) :
    ({ e with
        identifier := Function.update e.identifier ⟨e.ndep, h⟩ x
        jacobian := Function.update e.jacobian ⟨e.ndep, h⟩ y
        ndep := e.ndep + 1 } : LinExpr K).deps = e.deps ++ [(x, y)] := by
  have hp : ∀ i, ({ e with
      identifier := Function.update e.identifier ⟨e.ndep, h⟩ x
      jacobian := Function.update e.jacobian ⟨e.ndep, h⟩ y
      ndep := e.ndep + 1 } : LinExpr K).pair i = if i = e.ndep then (x, y) else e.pair i :=
    e.pair_update h x y
  simp only [deps, List.range_succ, List.map_append, List.map_cons, List.map_nil, hp,
    if_pos rfl]
  exact congrArg (· ++ _)
    (List.map_congr_left fun i hi => (hp i).trans (if_neg (List.mem_range.1 hi).ne))

end LinExpr

section Room
variable {e : LinExpr K}

/-- With `ndep < MAX_NDEP`, a run from `i ≤ ndep` stops at some `k ≤ ndep`; the dependencies
`i .. k-1` have the identifier `id`, the one at `k` (if any) does not, and their jacobians
are added to the sum. -/
theorem sumRun_ok (hn : e.ndep < maxNdep) (id i : Nat) (sum : K) (hi : i ≤ e.ndep) :
    ∃ r, sumRun e id i sum = .ok r ∧ r.1.1 ≤ e.ndep ∧
      (∀ d ∈ e.segment i r.1.1, d.1 = id) ∧
      (∀ d ∈ (e.segment r.1.1 e.ndep).head?, d.1 ≠ id) ∧
      r.1.2 = sum + ((e.segment i r.1.1).map Prod.snd).sum := by
  have hlt : i < maxNdep := by omega
  rw [sumRun, slotGet_of_lt hlt, except_ok_bind]
  by_cases hrun : e.identifier ⟨i, hlt⟩ = id ∧ i < e.ndep
  · obtain ⟨hx, hin⟩ := hrun
    rw [if_pos ⟨hx, hin⟩, slotGet_of_lt hlt, except_ok_bind]
    obtain ⟨r, hr, hle, hids, hstop, hsum⟩ :=
      sumRun_ok hn id (i + 1) (sum + e.jacobian ⟨i, hlt⟩) hin
    have hseg := e.segment_eq_cons (show i < r.1.1 from r.2)
    rw [e.pair_of_lt hlt] at hseg
    refine ⟨⟨r.1, Nat.le_of_succ_le r.2⟩, by rw [hr]; rfl, hle, ?_, hstop, ?_⟩
    · rw [hseg]
      rintro d (_ | ⟨_, hd⟩)
      exacts [hx, hids d hd]
    · rw [hseg, List.map_cons, List.sum_cons, ← add_assoc]
      exact hsum
  · rw [if_neg hrun]
    refine ⟨_, rfl, hi, by simp, fun d hd => ?_, by simp⟩
    rcases Nat.lt_or_eq_of_le hi with hin | heq
    · rw [e.segment_eq_cons hin, List.head?_cons, Option.mem_def, Option.some.injEq,
        e.pair_of_lt hlt] at hd
      subst hd
      exact fun hx => hrun ⟨hx, hin⟩
    · simp [heq] at hd
termination_by e.ndep - i

/-- **The merging loop with room.** With `ndep < MAX_NDEP`, the loop of `normalizeLinExpr`
from index `i` succeeds; it keeps the value of `ret` and appends to its dependencies the runs
of `a`'s dependencies `i .. ndep-1`, merged. -/
theorem mergeRuns_ok (hn : e.ndep < maxNdep) (i : Nat) (ret : LinExpr K) (hi : i ≤ e.ndep)
    (hret : ret.ndep ≤ i) :
    ∃ r out, mergeRuns e i ret = .ok r ∧ r.value = ret.value ∧ r.deps = ret.deps ++ out ∧
      RunsMerged (e.segment i e.ndep) out := by
  by_cases hlt : i < e.ndep
  · have hi' : i < maxNdep := by omega
    have hroom : ret.ndep < maxNdep := by omega
    obtain ⟨r, hr, hle, hids, hstop, hsum⟩ :=
      sumRun_ok hn (e.identifier ⟨i, hi'⟩) (i + 1) (e.jacobian ⟨i, hi'⟩) hlt
    have hk := r.2
    obtain ⟨r', out, hr', hv, hd, hm⟩ := mergeRuns_ok hn r.1.1
      { ret with
        identifier :=
          Function.update ret.identifier ⟨ret.ndep, hroom⟩ (e.identifier ⟨i, hi'⟩)
        jacobian := Function.update ret.jacobian ⟨ret.ndep, hroom⟩ r.1.2
        ndep := ret.ndep + 1 } hle (by simp only; omega)
    have hseg := e.segment_eq_cons (show i < r.1.1 by omega)
    rw [e.pair_of_lt hi'] at hseg
    have hs : r.1.2 = ((e.segment i r.1.1).map Prod.snd).sum := by
      rw [hseg, List.map_cons, List.sum_cons]
      exact hsum
    refine ⟨r', (e.identifier ⟨i, hi'⟩, r.1.2) :: out, ?_, hv, ?_, ?_⟩
    · rw [mergeRuns, dif_pos hlt, slotGet_of_lt hi', except_ok_bind, slotGet_of_lt hi',
        except_ok_bind, hr, except_ok_bind, slotSet_of_lt hroom, except_ok_bind,
        slotSet_of_lt hroom, except_ok_bind, hr']
    · rw [hd, ret.deps_push hroom, List.append_assoc, List.singleton_append]
    · rw [hs, ← e.segment_append (show i ≤ r.1.1 by omega) hle]
      refine .run (by simp [hseg]) ?_ hstop hm
      rw [hseg]
      rintro d (_ | ⟨_, hd⟩)
      exacts [rfl, hids d hd]
  · have heq : e.ndep = i := by omega
    refine ⟨ret, [], mergeRuns_of_le (by omega), rfl, (List.append_nil _).symm, ?_⟩
    rw [heq, LinExpr.segment_self]
    exact .nil
termination_by e.ndep - i

end Room

/-- **What `normalizeLinExpr` leaves in `a`.** Once the sort has run, if the record it leaves
in `a` has room past its dependencies (`ndep < MAX_NDEP`), the merging loop succeeds and `a`
ends up with that record's value and gradient, each run of one identifier merged into one
dependency; if the sort left the identifiers in order, they come out strictly increasing. -/
theorem normalizeLinExpr_merges {h h3 : LinExprHeap K} {a : LinPtr} {ea r ea3 : LinExpr K}
    (hea : (newLinExpr h).1.read a = .ok ea)
    (hsort : mergesortLinExpr a 0 ea.ndep (newLinExpr h).2 (newLinExpr h).1 = .ok h3)
    (hr : h3.read (newLinExpr h).2 = .ok r) (ha3 : h3.read a = .ok ea3)
    (hroom : ea3.ndep < maxNdep) :
    ∃ h' r', normalizeLinExpr a h = .ok h' ∧ h'.read a = .ok r' ∧ r'.value = ea3.value ∧
      (∀ id, gradient r'.deps id = gradient ea3.deps id) ∧
      ((ea3.deps.map Prod.fst).Pairwise (· ≤ ·) →
        (r'.deps.map Prod.fst).Pairwise (· < ·)) := by
  obtain ⟨r', out, hruns, hv, hd, hm⟩ :=
    mergeRuns_ok hroom 0 { r with ndep := 0, value := ea3.value } (Nat.zero_le _) le_rfl
  obtain ⟨h', hn, hread⟩ := normalizeLinExpr_of_steps hea hsort hr ha3 hruns
  have hout : r'.deps = out := hd
  rw [← LinExpr.deps_eq_segment] at hm
  exact ⟨h', r', hn, hread, hv, fun id => by rw [hout, hm.gradient_eq],
    fun hs => hout ▸ hm.sorted hs⟩

section Buffer
variable {h : LinExprHeap K} {a : LinPtr} {ea : LinExpr K}

/-- With room in the buffer, a record with at most one dependency, which the sort leaves
alone, is normalized to its own value and gradient. -/
theorem normalizeLinExpr_of_le_one (hi : h.Inv) (hroom : h.nLinexpr < h.maxLinexpr)
    (ha : h.Live a) (hea : h.read a = .ok ea) (hone : ea.ndep ≤ 1) :
    ∃ h' r', normalizeLinExpr a h = .ok h' ∧ h'.read a = .ok r' ∧ r'.value = ea.value ∧
      ∀ id, gradient r'.deps id = gradient ea.deps id := by
  obtain ⟨h1, r0, hnew, -, -, -, -, hr0, hkeep⟩ := newLinExpr_of_room hi hroom
  have hea' : (newLinExpr h).1.read a = .ok ea := by rw [hnew]; exact (hkeep a ha).trans hea
  obtain ⟨h', r', hn, hread, hv, hg, -⟩ := normalizeLinExpr_merges hea'
    (mergesortLinExpr_of_le_one (by omega)) (by rw [hnew]; exact hr0) hea'
    (lt_of_le_of_lt hone (by decide))
  exact ⟨h', r', hn, hread, hv, hg⟩

/-- On a full buffer `normalizeLinExpr` reads `a` after `newLinExpr` has moved the buffer:
through a pointer into the freed allocation. -/
theorem normalizeLinExpr_of_full (hfull : h.nLinexpr = h.maxLinexpr) (ha : a.alloc = h.alloc) :
    normalizeLinExpr a h = .error .freed := by
  have hne : a.alloc ≠ (newLinExpr h).1.alloc := by
    rw [newLinExpr_alloc, if_pos hfull, ha]; exact Nat.ne_of_lt (Nat.lt_succ_self _)
  simp only [normalizeLinExpr, LinExprHeap.read_of_ne_alloc hne, except_error_bind]

end Buffer

end Derivgrind
