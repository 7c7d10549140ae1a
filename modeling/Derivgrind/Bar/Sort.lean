import Derivgrind.Bar.Calls

/-!
# Derivgrind.Bar.Sort

What `mergesortLinExpr(a, from, to, tmp)` does to the buffer, for every input it runs on.
It is documented as sorting the `(identifier, jacobian)` pairs of `a`, but it moves whole
records (`Derivgrind.Bar.Normalize`). Here is what it does instead: it permutes the records
`a[from] .. a[to-1]` of the buffer, uses `tmp[from] .. tmp[to-1]` as scratch, and leaves every
other record as it was. It loses and duplicates no record, whatever the identifiers it
compares, and the records it moves need not be dependencies of `a` at all.

`SortLayout` collects what the sort needs to run without a fault: both pointers into the
current allocation, both ranges inside it and apart, and the compared slots below
`MAX_NDEP`. `LinExprHeap.Within` says which entries a computation may change. Each loop gets
one lemma: one round of the merge loop copies the record at one of its two cursors
(`mergeRecords_succ`), so the loop leaves in `tmp` a permutation of the two runs
(`mergeRecords_perm`); the copy-back loop copies `tmp` to `a` (`copyRecordsBack_records`); and
the sort is assembled by its own recursion (`mergesortLinExpr_perm`).

With the merging loop of `Derivgrind.Bar.Normalize` this says what `normalizeLinExpr(a)` does
on every buffer with room for its scratch records: it leaves in `a` the normalized value and
gradient of one of the records `a[0..a->ndep)`, whichever the sort moved there
(`normalizeLinExpr_takes_record`).
-/

namespace Derivgrind

variable {K : Type}

/-! ## Records and frames -/

/-- Entry `j` of the buffer is one of `p[lo] .. p[hi-1]`. -/
def LinPtr.Covers (p : LinPtr) (lo hi j : Nat) : Prop := p.idx + lo ≤ j ∧ j < p.idx + hi

theorem LinPtr.Covers.mono {p : LinPtr} {lo hi lo' hi' j : Nat} (hj : p.Covers lo' hi' j)
    (hlo : lo ≤ lo') (hhi : hi' ≤ hi) : p.Covers lo hi j :=
  ⟨Nat.le_trans (Nat.add_le_add_left hlo _) hj.1, Nat.lt_of_lt_of_le hj.2 (Nat.add_le_add_left hhi _)⟩

namespace LinExprHeap

/-- The records `p[lo] .. p[hi-1]` of the allocation, `none` past its end. -/
def records (h : LinExprHeap K) (p : LinPtr) (lo hi : Nat) : List (Option (LinExpr K)) :=
  (List.range' lo (hi - lo)).map fun i => h.buffer[p.idx + i]?

/-- `h'` is `h` with at most the records at the entries `touched` changed. -/
structure Within (h h' : LinExprHeap K) (touched : Nat → Prop) : Prop where
  nLinexpr_eq : h'.nLinexpr = h.nLinexpr
  maxLinexpr_eq : h'.maxLinexpr = h.maxLinexpr
  alloc_eq : h'.alloc = h.alloc
  length_eq : h'.buffer.length = h.buffer.length
  frame : ∀ j, ¬touched j → h'.buffer[j]? = h.buffer[j]?

/-- `*dst = *src` for entries of the allocation: the record at `src` assigned to `dst`. -/
def copyRecord (h : LinExprHeap K) (src dst : Nat) : LinExprHeap K :=
  match h.buffer[src]? with
  | some e => { h with buffer := h.buffer.set dst e }
  | none => h

variable {h h' h'' : LinExprHeap K} {S T : Nat → Prop} {p : LinPtr} {lo hi : Nat}

theorem records_self (h : LinExprHeap K) (p : LinPtr) (lo : Nat) : h.records p lo lo = [] := by
  simp [records]

theorem records_cons (hlt : lo < hi) :
    h.records p lo hi = h.buffer[p.idx + lo]? :: h.records p (lo + 1) hi := by
  rw [records, show hi - lo = hi - (lo + 1) + 1 by omega, List.range'_succ]
  rfl

theorem records_append {mid : Nat} (hlo : lo ≤ mid) (hhi : mid ≤ hi) :
    h.records p lo mid ++ h.records p mid hi = h.records p lo hi := by
  have hr := List.range'_append_1 lo (mid - lo) (hi - mid)
  rw [show lo + (mid - lo) = mid by omega, show hi - mid + (mid - lo) = hi - lo by omega] at hr
  rw [records, records, records, ← List.map_append, hr]

theorem Within.refl (h : LinExprHeap K) (S : Nat → Prop) : h.Within h S :=
  ⟨rfl, rfl, rfl, rfl, fun _ _ => rfl⟩

theorem Within.mono (hw : h.Within h' S) (hST : ∀ j, S j → T j) : h.Within h' T :=
  { hw with frame := fun j hj => hw.frame j (mt (hST j) hj) }

theorem Within.trans (hw : h.Within h' S) (hw' : h'.Within h'' S) : h.Within h'' S :=
  ⟨hw'.1.trans hw.1, hw'.2.trans hw.2, hw'.3.trans hw.3, hw'.4.trans hw.4,
    fun j hj => (hw'.frame j hj).trans (hw.frame j hj)⟩

/-- Records outside what a computation touches read the same after it. -/
theorem Within.records_eq (hw : h.Within h' S) (hS : ∀ i, lo ≤ i → i < hi → ¬S (p.idx + i)) :
    h'.records p lo hi = h.records p lo hi :=
  List.map_congr_left fun i hi' => by
    rw [List.mem_range'_1] at hi'
    exact hw.frame _ (hS i hi'.1 (by omega))

theorem copyRecord_within (h : LinExprHeap K) (src dst : Nat) :
    h.Within (h.copyRecord src dst) (· = dst) := by
  unfold copyRecord
  split
  · exact ⟨rfl, rfl, rfl, List.length_set .., fun j hj => List.getElem?_set_ne (Ne.symm hj)⟩
  · exact .refl h _

theorem copyRecord_dst {src dst : Nat} (hsrc : src < h.buffer.length)
    (hdst : dst < h.buffer.length) : (h.copyRecord src dst).buffer[dst]? = h.buffer[src]? := by
  simp only [copyRecord, List.getElem?_eq_getElem hsrc, List.getElem?_set_self hdst]

/-- `*dst = *src` through two pointers into the current allocation. -/
theorem read_write_bind {β : Type} (src dst : LinPtr) (hs : src.alloc = h.alloc)
    (hsl : src.idx < h.buffer.length) (hd : dst.alloc = h.alloc)
    (hdl : dst.idx < h.buffer.length) (f : LinExprHeap K → Except LinExprFault β) :
    (h.read src >>= fun e => h.write dst e >>= f) = f (h.copyRecord src.idx dst.idx) := by
  simp only [read_of_getElem? hs (List.getElem?_eq_getElem hsl), except_ok_bind,
    write_of_lt hd hdl, copyRecord, List.getElem?_eq_getElem hsl]

end LinExprHeap

/-! ## The sort -/

open LinExprHeap

/-- What `mergesortLinExpr(a, lo, hi, tmp)` needs to run without a fault: `a` and `tmp` point
into the current allocation, the records `a[lo..hi)` and `tmp[lo..hi)` lie inside it and do
not overlap, and the slots it compares, `identifier[lo..hi)` of `*a`, are below
`MAX_NDEP`. -/
structure SortLayout (a tmp : LinPtr) (lo hi : Nat) (h : LinExprHeap K) : Prop where
  a_alloc : a.alloc = h.alloc
  tmp_alloc : tmp.alloc = h.alloc
  a_le : a.idx + hi ≤ h.buffer.length
  tmp_le : tmp.idx + hi ≤ h.buffer.length
  keys_le : hi ≤ maxNdep
  apart : a.idx + hi ≤ tmp.idx + lo ∨ tmp.idx + hi ≤ a.idx + lo

section Merge
variable {a tmp : LinPtr} {lo hi : Nat} {h h' : LinExprHeap K} {S : Nat → Prop}

theorem SortLayout.within (hl : SortLayout a tmp lo hi h) (hw : h.Within h' S) :
    SortLayout a tmp lo hi h' :=
  ⟨hl.a_alloc.trans hw.alloc_eq.symm, hl.tmp_alloc.trans hw.alloc_eq.symm,
    hw.length_eq ▸ hl.a_le, hw.length_eq ▸ hl.tmp_le, hl.keys_le, hl.apart⟩

theorem SortLayout.sub (hl : SortLayout a tmp lo hi h) {lo' hi' : Nat} (hlo : lo ≤ lo')
    (hhi : hi' ≤ hi) : SortLayout a tmp lo' hi' h :=
  ⟨hl.a_alloc, hl.tmp_alloc, by have := hl.a_le; omega, by have := hl.tmp_le; omega,
    by have := hl.keys_le; omega, by have := hl.apart; omega⟩

/-- **One round of the merge loop.** With `rem + 1` rounds left it copies `a[from_m]` to
`tmp[to-rem-1]` and moves on from `from_m`, or copies `a[sep_m]` and moves on from `sep_m`;
the cursor it takes is inside its run, whichever way the comparison goes. -/
theorem mergeRecords_succ {sep rem fromM sepM : Nat} (hl : SortLayout a tmp lo hi h)
    (hlo : lo ≤ fromM) (h1 : fromM ≤ sep) (h2 : sep ≤ sepM) (h3 : sepM ≤ hi)
    (hrem : rem + 1 = sep - fromM + (hi - sepM)) :
    (fromM < sep ∧ mergeRecords a tmp sep hi (rem + 1) fromM sepM h =
        mergeRecords a tmp sep hi rem (fromM + 1) sepM
          (h.copyRecord (a.idx + fromM) (tmp.idx + (hi - (rem + 1))))) ∨
      (sepM < hi ∧ mergeRecords a tmp sep hi (rem + 1) fromM sepM h =
        mergeRecords a tmp sep hi rem fromM (sepM + 1)
          (h.copyRecord (a.idx + sepM) (tmp.idx + (hi - (rem + 1))))) := by
  have hla := hl.a_le
  have hlt := hl.tmp_le
  have hmove : ∀ k, k < hi → ∀ {β : Type} (f : LinExprHeap K → Except LinExprFault β),
      (h.read (a.offset k) >>= fun e => h.write (tmp.offset (hi - (rem + 1))) e >>= f) =
        f (h.copyRecord (a.idx + k) (tmp.idx + (hi - (rem + 1)))) := fun k hk _ f =>
    read_write_bind (a.offset k) (tmp.offset _) hl.a_alloc (by simp only [LinPtr.offset]; omega)
      hl.tmp_alloc (by simp only [LinPtr.offset]; omega) f
  rw [mergeRecords]
  split_ifs with hs hf
  · exact .inl ⟨by omega, hmove fromM (by omega) _⟩
  · have hkeys := hl.keys_le
    simp only [read_of_getElem? hl.a_alloc (List.getElem?_eq_getElem (by omega : a.idx < _)),
      slotGet_of_lt (by omega : fromM < maxNdep), slotGet_of_lt (by omega : sepM < maxNdep),
      except_ok_bind, except_pure]
    split
    · exact .inl ⟨hf, hmove fromM (by omega) _⟩
    · exact .inr ⟨by omega, hmove sepM (by omega) _⟩
  · exact .inr ⟨by omega, hmove sepM (by omega) _⟩

/-- **The merge loop is a permutation.** From cursors `from_m` in `[from, sep)` and `sep_m` in
`[sep, to)` with `rem` rounds left, the loop runs without a fault, changes only
`tmp[to-rem..to)`, and leaves there a permutation of the records `a[from_m..sep)` and
`a[sep_m..to)`. -/
theorem mergeRecords_perm {sep : Nat} :
    ∀ (rem fromM sepM : Nat) {h : LinExprHeap K}, SortLayout a tmp lo hi h → lo ≤ fromM →
      fromM ≤ sep → sep ≤ sepM → sepM ≤ hi → rem = sep - fromM + (hi - sepM) →
      ∃ h', mergeRecords a tmp sep hi rem fromM sepM h = .ok h' ∧
        h.Within h' (tmp.Covers (hi - rem) hi) ∧
        (h'.records tmp (hi - rem) hi).Perm (h.records a fromM sep ++ h.records a sepM hi)
  | 0, fromM, sepM, h, _, _, h1, h2, h3, hrem => by
    obtain rfl : fromM = sep := by omega
    obtain rfl : sepM = hi := by omega
    refine ⟨h, rfl, .refl h _, ?_⟩
    simp only [records_self, List.append_nil, Nat.sub_zero, List.Perm.refl]
  | rem + 1, fromM, sepM, h, hl, hlo, h1, h2, h3, hrem => by
    have hla := hl.a_le
    have hlt := hl.tmp_le
    -- after copying `a[k]` to `tmp[to-rem-1]`, the remaining rounds do the rest
    have round : ∀ k fromM' sepM', lo ≤ k → k < hi → lo ≤ fromM' → fromM' ≤ sep →
        sep ≤ sepM' → sepM' ≤ hi → rem = sep - fromM' + (hi - sepM') →
        ∃ h', mergeRecords a tmp sep hi rem fromM' sepM'
            (h.copyRecord (a.idx + k) (tmp.idx + (hi - (rem + 1)))) = .ok h' ∧
          h.Within h' (tmp.Covers (hi - (rem + 1)) hi) ∧
          (h'.records tmp (hi - (rem + 1)) hi).Perm
            (h.buffer[a.idx + k]? :: (h.records a fromM' sep ++ h.records a sepM' hi)) := by
      intro k fromM' sepM' hk hk' hlo' g1 g2 g3 hrem'
      have hw1 := copyRecord_within h (a.idx + k) (tmp.idx + (hi - (rem + 1)))
      have hnot : ∀ i, lo ≤ i → i < hi → ¬(a.idx + i = tmp.idx + (hi - (rem + 1))) :=
        fun i g g' => by have := hl.apart; omega
      obtain ⟨h', hrun, hw', hperm⟩ :=
        mergeRecords_perm rem fromM' sepM' (hl.within hw1) hlo' g1 g2 g3 hrem'
      refine ⟨h', hrun, (hw1.mono fun j hj => ⟨by omega, by omega⟩).trans
        (hw'.mono fun j hj => hj.mono (by omega) le_rfl), ?_⟩
      have e1 : (h.copyRecord (a.idx + k) (tmp.idx + (hi - (rem + 1)))).records a fromM' sep =
          h.records a fromM' sep := hw1.records_eq fun i g g' => hnot i (by omega) (by omega)
      have e2 : (h.copyRecord (a.idx + k) (tmp.idx + (hi - (rem + 1)))).records a sepM' hi =
          h.records a sepM' hi := hw1.records_eq fun i g g' => hnot i (by omega) (by omega)
      have e3 : h'.buffer[tmp.idx + (hi - (rem + 1))]? = h.buffer[a.idx + k]? :=
        (hw'.frame _ (by simp only [LinPtr.Covers]; omega)).trans
          (copyRecord_dst (by omega) (by omega))
      rw [records_cons (by omega), show hi - (rem + 1) + 1 = hi - rem by omega, e3]
      rw [e1, e2] at hperm
      exact hperm.cons _
    rcases mergeRecords_succ hl hlo h1 h2 h3 hrem with ⟨hk, heq⟩ | ⟨hk, heq⟩ <;> rw [heq]
    · rw [records_cons (p := a) hk]
      exact round fromM (fromM + 1) sepM hlo (by omega) (by omega) hk h2 h3 (by omega)
    · obtain ⟨h', hrun, hw, hperm⟩ :=
        round sepM fromM (sepM + 1) (by omega) hk hlo h1 (by omega) hk (by omega)
      rw [records_cons (p := a) hk]
      exact ⟨h', hrun, hw, hperm.trans List.perm_middle.symm⟩

/-- **The copy-back loop.** With `rem` rounds left it runs without a fault, changes only
`a[to-rem..to)`, and leaves there the records of `tmp[to-rem..to)`. -/
theorem copyRecordsBack_records :
    ∀ (rem : Nat) {h : LinExprHeap K}, SortLayout a tmp lo hi h → lo + rem ≤ hi →
      ∃ h', copyRecordsBack a tmp hi rem h = .ok h' ∧
        h.Within h' (a.Covers (hi - rem) hi) ∧
        h'.records a (hi - rem) hi = h.records tmp (hi - rem) hi
  | 0, h, _, _ => ⟨h, rfl, .refl h _, by simp only [Nat.sub_zero, records_self]⟩
  | rem + 1, h, hl, hr => by
    have hla := hl.a_le
    have hlt := hl.tmp_le
    have hw1 := copyRecord_within h (tmp.idx + (hi - (rem + 1))) (a.idx + (hi - (rem + 1)))
    obtain ⟨h', hrun, hw', hrec⟩ := copyRecordsBack_records rem (hl.within hw1) (by omega)
    refine ⟨h', ?_, (hw1.mono fun j hj => ⟨by omega, by omega⟩).trans
      (hw'.mono fun j hj => hj.mono (by omega) le_rfl), ?_⟩
    · rw [copyRecordsBack, read_write_bind (tmp.offset _) (a.offset _) hl.tmp_alloc
        (by simp only [LinPtr.offset]; omega) hl.a_alloc (by simp only [LinPtr.offset]; omega)]
      exact hrun
    · have e1 : (h.copyRecord (tmp.idx + (hi - (rem + 1))) (a.idx + (hi - (rem + 1)))).records
          tmp (hi - rem) hi = h.records tmp (hi - rem) hi :=
        hw1.records_eq fun i g g' => by have := hl.apart; omega
      have e2 : h'.buffer[a.idx + (hi - (rem + 1))]? = h.buffer[tmp.idx + (hi - (rem + 1))]? :=
        (hw'.frame _ (by simp only [LinPtr.Covers]; omega)).trans
          (copyRecord_dst (by omega) (by omega))
      rw [records_cons (by omega), records_cons (p := tmp) (by omega),
        show hi - (rem + 1) + 1 = hi - rem by omega, hrec, e1, e2]

/-- **`mergesortLinExpr` permutes records.** On every buffer where the ranges `a[lo..hi)` and
`tmp[lo..hi)` lie in the current allocation apart from each other and the compared slots are
below `MAX_NDEP`, the sort runs without a fault, changes no entry outside the two ranges, and
leaves in `a[lo..hi)` a permutation of the records that were there. -/
theorem mergesortLinExpr_perm {lo hi : Nat} {h : LinExprHeap K} (hl : SortLayout a tmp lo hi h) :
    ∃ h', mergesortLinExpr a lo hi tmp h = .ok h' ∧
      h.Within h' (fun j => a.Covers lo hi j ∨ tmp.Covers lo hi j) ∧
      (h'.records a lo hi).Perm (h.records a lo hi) := by
  by_cases hlen : hi - lo ≤ 1
  · exact ⟨h, mergesortLinExpr_of_le_one hlen, .refl h _, .refl _⟩
  have hm1 : lo ≤ (lo + hi) / 2 := by omega
  have hm2 : (lo + hi) / 2 ≤ hi := by omega
  obtain ⟨h1, hr1, hw1, hp1⟩ := mergesortLinExpr_perm (hl.sub le_rfl hm2)
  have hl1 := hl.within hw1
  obtain ⟨h2, hr2, hw2, hp2⟩ := mergesortLinExpr_perm (hl1.sub hm1 le_rfl)
  have hl2 := hl1.within hw2
  obtain ⟨h3, hr3, hw3, hp3⟩ :=
    mergeRecords_perm (hi - lo) lo ((lo + hi) / 2) hl2 le_rfl hm1 le_rfl hm2 (by omega)
  obtain ⟨h4, hr4, hw4, hp4⟩ := copyRecordsBack_records (hi - lo) (hl2.within hw3) (by omega)
  rw [Nat.sub_sub_self (by omega)] at hw3 hp3 hw4 hp4
  have hout : ∀ {lo' hi' : Nat}, lo ≤ lo' → hi' ≤ hi →
      ∀ j, a.Covers lo' hi' j ∨ tmp.Covers lo' hi' j → a.Covers lo hi j ∨ tmp.Covers lo hi j :=
    fun g g' j hj => hj.imp (·.mono g g') (·.mono g g')
  refine ⟨h4, ?_, (((hw1.mono (hout le_rfl hm2)).trans (hw2.mono (hout hm1 le_rfl))).trans
    (hw3.mono fun j hj => .inr hj)).trans (hw4.mono fun j hj => .inl hj), ?_⟩
  · rw [mergesortLinExpr_of_one_lt (by omega)]
    simp only [hr1, hr2, hr3, hr4, except_ok_bind]
  · have hapart := hl.apart
    have hkeep : ∀ {lo' hi' : Nat}, lo ≤ lo' → hi' ≤ hi → ∀ {lo'' hi'' : Nat},
        lo ≤ lo'' → hi'' ≤ hi → (hi' ≤ lo'' ∨ hi'' ≤ lo') →
        ∀ i, lo'' ≤ i → i < hi'' → ¬(a.Covers lo' hi' (a.idx + i) ∨ tmp.Covers lo' hi' (a.idx + i)) :=
      fun g1 g2 g3 g4 g5 i g6 g7 => by simp only [LinPtr.Covers]; omega
    calc h4.records a lo hi = h3.records tmp lo hi := hp4
      List.Perm _ (h2.records a lo ((lo + hi) / 2) ++ h2.records a ((lo + hi) / 2) hi) := hp3
      List.Perm _ (h.records a lo ((lo + hi) / 2) ++ h.records a ((lo + hi) / 2) hi) := by
        rw [hw2.records_eq (hkeep hm1 le_rfl le_rfl hm2 (.inr le_rfl)),
          ← hw1.records_eq (hkeep le_rfl hm2 hm1 le_rfl (.inl le_rfl))]
        exact hp1.append hp2
      _ = h.records a lo hi := records_append hm1 hm2
termination_by hi - lo
decreasing_by all_goals omega

/-- The unsorted record of `mergesortLinExpr_moves_records`: the sort swaps the record `a`
and the one after it, which is a permutation of the two. -/
theorem mergesortLinExpr_perm_unsorted :
    let a0 : LinExpr ℚ := ⟨5, 2, fun i => if i.1 = 0 then 2 else 1, fun _ => 1⟩
    let a1 : LinExpr ℚ := ⟨7, 0, fun _ => 0, fun _ => 0⟩
    let h : LinExprHeap ℚ := ⟨[a0, a1, .blank, .blank, .blank, .blank, .blank], 2, 7, 3⟩
    ∃ h', mergesortLinExpr ⟨3, 0⟩ 0 2 ⟨3, 2⟩ h = .ok h' ∧
      h.Within h' (fun j => LinPtr.Covers ⟨3, 0⟩ 0 2 j ∨ LinPtr.Covers ⟨3, 2⟩ 0 2 j) ∧
      (h'.records ⟨3, 0⟩ 0 2).Perm (h.records ⟨3, 0⟩ 0 2) := by
  intro a0 a1 h
  exact mergesortLinExpr_perm ⟨rfl, rfl, by decide, by decide, by decide, by decide⟩

end Merge

/-! ## What `normalizeLinExpr` leaves in `a` -/

section Normalize
variable [Field K] {h : LinExprHeap K} {a : LinPtr} {ea : LinExpr K}

/-- **`normalizeLinExpr(a)` normalizes one of the records from `a` on.** On a well-formed buffer
with room for the scratch records `ret[0..a->ndep)` past the live entries, where the records
`a[0..a->ndep)` are live and each has fewer than `MAX_NDEP` dependencies, the call runs
without a fault and leaves in `a` the value and the gradient of one of the records `a[i]`,
`i < max(a->ndep, 1)`: the sort moves whole records, so it is `a`'s own only when the sort
leaves `a` in place. -/
theorem normalizeLinExpr_takes_record (hw : h.WellFormed) (hroom : h.nLinexpr < h.maxLinexpr)
    (hfit : h.nLinexpr + ea.ndep ≤ h.maxLinexpr) (ha : h.Live a) (hea : h.read a = .ok ea)
    (hbelow : a.idx + ea.ndep ≤ h.nLinexpr)
    (hslots : ∀ i < ea.ndep, ∀ e, h.buffer[a.idx + i]? = some e → e.ndep < maxNdep) :
    ∃ h' r' e i, normalizeLinExpr a h = .ok h' ∧ h'.read a = .ok r' ∧
      i < max ea.ndep 1 ∧ h.buffer[a.idx + i]? = some e ∧
      r'.value = e.value ∧ ∀ id, gradient r'.deps id = gradient e.deps id := by
  have hlen := hw.inv.length_eq
  have hlive := ha.2
  obtain ⟨h1, -, hnew, hi1, halloc, hmax, -, -, hkeep⟩ := newLinExpr_of_room hw.inv hroom
  obtain ⟨-, -, -, hsame, -⟩ := newLinExpr_spec hw.inv
  rw [hnew] at hsame
  dsimp only at hsame
  have hlen1 := hi1.length_eq
  have hl : SortLayout a ⟨h.alloc, h.nLinexpr⟩ 0 ea.ndep h1 :=
    ⟨ha.1.trans halloc.symm, halloc.symm, by omega, show h.nLinexpr + ea.ndep ≤ _ by omega,
      hw.bounded.read hea, .inl (show a.idx + ea.ndep ≤ h.nLinexpr + 0 by omega)⟩
  obtain ⟨h3, hsort, hw3, hperm⟩ := mergesortLinExpr_perm hl
  have hlen3 := hw3.length_eq
  have halloc3 : h.alloc = h3.alloc := (hw3.alloc_eq.trans halloc).symm
  -- the reads after the sort: the scratch entry, and the record the sort left in `a`
  obtain ⟨r, hr⟩ : ∃ r, h3.read ⟨h.alloc, h.nLinexpr⟩ = .ok r :=
    ⟨_, read_of_getElem? halloc3 (List.getElem?_eq_getElem (show h.nLinexpr < _ by omega))⟩
  obtain ⟨ea3, hget3⟩ : ∃ e, h3.buffer[a.idx]? = some e :=
    ⟨_, List.getElem?_eq_getElem (show a.idx < _ by omega)⟩
  obtain ⟨i, hib, hbuf, hroom3⟩ :
      ∃ i, i < max ea.ndep 1 ∧ h.buffer[a.idx + i]? = some ea3 ∧ ea3.ndep < maxNdep := by
    rcases Nat.eq_zero_or_pos ea.ndep with h0 | hpos
    · -- nothing to sort: `a` keeps its own record
      have hget : h.buffer[a.idx]? = some ea := (read_eq_ok.1 hea).2
      obtain rfl : ea3 = ea := Option.some.inj <| hget3.symm.trans <|
        (hw3.frame _ (by simp only [LinPtr.Covers, h0]; omega)).trans ((hsame _ hlive).trans hget)
      exact ⟨0, by omega, hget, by rw [h0]; decide⟩
    · -- the sort moved one of the records `a[0..ndep)` into `a`
      have hmem : some ea3 ∈ h3.records a 0 ea.ndep := by
        rw [records_cons hpos, Nat.add_zero, hget3]
        exact List.mem_cons_self _ _
      obtain ⟨i, hi', he⟩ := List.mem_map.1 (hperm.mem_iff.1 hmem)
      rw [List.mem_range'_1] at hi'
      have hbuf : h.buffer[a.idx + i]? = some ea3 := (hsame _ (by omega)).symm.trans he
      exact ⟨i, by omega, hbuf, hslots i (by omega) ea3 hbuf⟩
  have hnew1 : (newLinExpr h).1 = h1 := by rw [hnew]
  have hnew2 : (newLinExpr h).2 = ⟨h.alloc, h.nLinexpr⟩ := by rw [hnew]
  obtain ⟨h', r', hn, hread, hv, hg, -⟩ := normalizeLinExpr_merges
    (by rw [hnew1]; exact (hkeep a ha).trans hea) (by rw [hnew1, hnew2]; exact hsort)
    (by rw [hnew2]; exact hr) (read_of_getElem? (ha.1.trans halloc3) hget3) hroom3
  exact ⟨h', r', ea3, i, hn, hread, hib, hbuf, hv, hg⟩

/-- The record of `normalizeLinExpr_replaces_record`: `a` has two dependencies and is
followed by a live record with none. -/
theorem normalizeLinExpr_takes_record_swap :
    let a0 : LinExpr ℚ := ⟨5, 2, fun i => if i.1 = 0 then 2 else 1, fun _ => 1⟩
    let a1 : LinExpr ℚ := ⟨7, 0, fun _ => 0, fun _ => 0⟩
    let h : LinExprHeap ℚ := ⟨[a0, a1, .blank, .blank, .blank, .blank, .blank], 2, 7, 3⟩
    ∃ h' r' e i, normalizeLinExpr ⟨3, 0⟩ h = .ok h' ∧ h'.read ⟨3, 0⟩ = .ok r' ∧
      i < max a0.ndep 1 ∧ h.buffer[0 + i]? = some e ∧
      r'.value = e.value ∧ ∀ id, gradient r'.deps id = gradient e.deps id := by
  intro a0 a1 h
  have hb : h.Bounded := fun i e he => by
    have hm := List.getElem?_mem he
    simp only [h, List.mem_cons, List.mem_singleton, List.not_mem_nil, or_false] at hm
    rcases hm with rfl | rfl | rfl | rfl | rfl | rfl | rfl <;> decide
  exact normalizeLinExpr_takes_record ⟨⟨by decide, rfl⟩, hb⟩ (by decide) (by decide)
    ⟨rfl, by decide⟩ rfl (by decide) fun i hi e he => by
      match i, hi with
      | 0, _ => cases he; decide
      | 1, _ => cases he; decide

end Normalize

end Derivgrind
