import Derivgrind.IR.Semantics

/-!
# Derivgrind.IR.Frame

Non-interference for superblocks: when a block reads only its own temporaries and the
guest state proper, and the statements interleaved with it write only elsewhere, the
interleaved block leaves everything the original can observe exactly as the original does.

* `IRExpr.inScope n total` — an expression of the original block: it reads temporaries
  below `n` and guest bytes below `total`;
* `IRStmt.shadowOnly n total` — an instrumentation statement: it writes temporaries from
  `n` on, guest bytes from `total` on, or the tool's state;
* `Agree n total` — two states agree on temporaries below `n`, guest bytes below `total`,
  memory and the exit taken;
* `execStmts_interleaved` — the simulation: agreement survives running the original block
  on one side and the interleaved block on the other.

Everything is generic in the values, the operators and the tool's helpers; the only
assumption is that a guest helper reads and writes the guest state proper only
(`Interp.GuestLocal`).
-/

namespace Derivgrind

/-- What one node reads, for an expression of the original block: a temporary below `n`,
guest bytes below `total`, or a non-empty register array lying there. -/
def IRExpr.readsWithin (n total : Nat) : IRExpr → Prop
  | .rdTmp t => t < n
  | .get off ty => off + sizeofIRType ty ≤ total
  | .getI d _ _ => 0 < d.nElems ∧ d.base + d.nElems * sizeofIRType d.elemTy ≤ total
  | _ => True

instance IRExpr.decReadsWithin (n total : Nat) : DecidablePred (IRExpr.readsWithin n total)
  | .rdTmp t => Nat.decLt t n
  | .get _ _ => Nat.decLe _ _
  | .getI _ _ _ => instDecidableAnd
  | .const _ | .load _ _ | .unop _ _ | .binop _ _ _ | .triop _ _ _ _ | .qop _ _ _ _ _
  | .ite _ _ _ | .ccall _ _ _ _ => instDecidableTrue

/-- An expression of the original block: it reads temporaries below `n` and guest bytes
below `total`. -/
def IRExpr.inScope (n total : Nat) (e : IRExpr) : Prop := e.all (IRExpr.readsWithin n total)

instance (n total : Nat) (e : IRExpr) : Decidable (e.inScope n total) :=
  inferInstanceAs (Decidable (e.all _))

/-- Whether a callee is a helper of the guest rather than of the tool. -/
def IRCallee.isGuest : IRCallee → Bool
  | .guest _ => true
  | _ => false

/-- A statement of the original block: its expressions are in scope and its dirty calls
are the guest's. Where it writes does not matter, since both runs write alike. -/
def IRStmt.inScope (n total : Nat) : IRStmt → Prop
  | .noOp | .imark | .abiHint | .mbe => True
  | .put _ data | .wrTmp _ data => data.inScope n total
  | .putI _ ix _ data => ix.inScope n total ∧ data.inScope n total
  | .store a d => a.inScope n total ∧ d.inScope n total
  | .storeG a d g => a.inScope n total ∧ d.inScope n total ∧ g.inScope n total
  | .loadG _ _ a alt g => a.inScope n total ∧ alt.inScope n total ∧ g.inScope n total
  | .cas c =>
    c.addr.inScope n total ∧ c.expdLo.inScope n total ∧ c.dataLo.inScope n total ∧
      (∀ e ∈ c.expdHi, e.inScope n total) ∧ (∀ e ∈ c.dataHi, e.inScope n total)
  | .llsc _ a sd => a.inScope n total ∧ ∀ e ∈ sd, e.inScope n total
  | .dirty d =>
    d.cee.isGuest ∧ d.guard.inScope n total ∧ ∀ e ∈ d.args, e.inScope n total
  | .exit g _ => g.inScope n total

instance IRStmt.decInScope (n total : Nat) : (st : IRStmt) → Decidable (st.inScope n total)
  | .noOp | .imark | .abiHint | .mbe => instDecidableTrue
  | .put _ data | .wrTmp _ data => inferInstanceAs (Decidable (data.inScope n total))
  | .putI _ ix _ data => inferInstanceAs (Decidable (ix.inScope n total ∧ data.inScope n total))
  | .store a d => inferInstanceAs (Decidable (a.inScope n total ∧ d.inScope n total))
  | .storeG a d g =>
    inferInstanceAs (Decidable (a.inScope n total ∧ d.inScope n total ∧ g.inScope n total))
  | .loadG _ _ a alt g =>
    inferInstanceAs (Decidable (a.inScope n total ∧ alt.inScope n total ∧ g.inScope n total))
  | .cas c =>
    inferInstanceAs (Decidable (c.addr.inScope n total ∧ c.expdLo.inScope n total ∧
      c.dataLo.inScope n total ∧ (∀ e ∈ c.expdHi, e.inScope n total) ∧
      (∀ e ∈ c.dataHi, e.inScope n total)))
  | .llsc _ a sd => inferInstanceAs (Decidable (a.inScope n total ∧ ∀ e ∈ sd, e.inScope n total))
  | .dirty d => inferInstanceAs (Decidable (d.cee.isGuest ∧ d.guard.inScope n total ∧
      ∀ e ∈ d.args, e.inScope n total))
  | .exit g _ => inferInstanceAs (Decidable (g.inScope n total))

/-- An instrumentation statement: it writes a temporary from `n` on, guest bytes from
`total` on, or (through a tool helper) the tool's state. -/
def IRStmt.shadowOnly (n total : Nat) : IRStmt → Prop
  | .noOp | .imark | .abiHint | .mbe => True
  | .wrTmp t _ => n ≤ t
  | .put off _ => total ≤ off
  | .putI d _ _ _ => total ≤ d.base
  | .dirty d => d.cee.isGuest = false ∧ ∀ t ∈ d.tmp, n ≤ t
  | _ => False

variable {V T T₁ T₂ T₃ : Type}

/-- Two states agree on what the original block reads and writes. Their tool states may
differ, even in type: the original block runs without the tool. -/
structure Agree (n total : Nat) (s₁ : State V T₁) (s₂ : State V T₂) : Prop where
  tmps : ∀ t < n, s₁.tmps t = s₂.tmps t
  guest : ∀ x < total, s₁.guest x = s₂.guest x
  mem : s₁.mem = s₂.mem
  exit : s₁.exit = s₂.exit

theorem Agree.refl (n total : Nat) (s : State V T) : Agree n total s s :=
  ⟨fun _ _ => rfl, fun _ _ => rfl, rfl, rfl⟩

theorem Agree.trans {n total : Nat} {s₁ : State V T₁} {s₂ : State V T₂} {s₃ : State V T₃}
    (h₁₂ : Agree n total s₁ s₂) (h₂₃ : Agree n total s₂ s₃) : Agree n total s₁ s₃ :=
  ⟨fun t ht => (h₁₂.tmps t ht).trans (h₂₃.tmps t ht),
    fun x hx => (h₁₂.guest x hx).trans (h₂₃.guest x hx), h₁₂.mem.trans h₂₃.mem,
    h₁₂.exit.trans h₂₃.exit⟩

/-- Updating temporary `d` keeps temporaries below `n` agreeing, provided the values agree
whenever `d` is one of them. -/
theorem update_agree {n : Nat} {f₁ f₂ : Nat → V} (h : ∀ t < n, f₁ t = f₂ t) (d : Nat)
    {v₁ v₂ : V} (hv : d < n → v₁ = v₂) :
    ∀ t < n, Function.update f₁ d v₁ t = Function.update f₂ d v₂ t := by
  intro t ht
  by_cases htd : t = d
  · subst htd; simp [hv ht]
  · simp [Function.update_noteq htd, h t ht]

theorem setTmp_agree {n : Nat} {f₁ f₂ : Nat → V} (h : ∀ t < n, f₁ t = f₂ t) :
    ∀ (o : Option Nat) {v₁ v₂ : V}, (∀ d ∈ o, d < n → v₁ = v₂) →
      ∀ t < n, setTmp f₁ o v₁ t = setTmp f₂ o v₂ t
  | none, _, _, _ => h
  | some d, _, _, hv => update_agree h d (hv d rfl)

/-- A guest helper reads and writes the guest state proper only: from states that agree
below `total` it returns the same result and memory, and guest states that still agree
there. -/
def Interp.GuestLocal (I : Interp V) (total : Nat) : Prop :=
  ∀ name args (g₁ g₂ : Nat → UInt8) m, (∀ x < total, g₁ x = g₂ x) →
    (I.guestCall name args g₁ m).1 = (I.guestCall name args g₂ m).1 ∧
    (I.guestCall name args g₁ m).2.2 = (I.guestCall name args g₂ m).2.2 ∧
    ∀ x < total, (I.guestCall name args g₁ m).2.1 x = (I.guestCall name args g₂ m).2.1 x

variable (I : Interp V) {n total : Nat}

/-- An in-scope expression evaluates alike in agreeing states. -/
theorem eval_agree {s₁ : State V T₁} {s₂ : State V T₂} (h : Agree n total s₁ s₂) :
    ∀ e : IRExpr, e.inScope n total → eval I s₁ e = eval I s₂ e
  | .const _, _ => rfl
  | .rdTmp t, ht => h.tmps t ht
  | .get off ty, hg => by simp only [eval, readBytes_agree h.guest hg]
  | .getI d ix bias, ⟨⟨hn, hd⟩, hix⟩ => by
    simp only [eval, eval_agree h ix hix]
    congr 1
    exact readBytes_agree h.guest (le_trans (d.elemOffset_add_le hn _ _) hd)
  | .load _ a, ⟨_, ha⟩ => by simp only [eval, eval_agree h a ha, h.mem]
  | .unop _ a, ⟨_, ha⟩ => by simp only [eval, eval_agree h a ha]
  | .binop _ a b, ⟨_, ha, hb⟩ => by simp only [eval, eval_agree h a ha, eval_agree h b hb]
  | .triop _ a b c, ⟨_, ha, hb, hc⟩ => by
    simp only [eval, eval_agree h a ha, eval_agree h b hb, eval_agree h c hc]
  | .qop _ a b c d, ⟨_, ha, hb, hc, hd⟩ => by
    simp only [eval, eval_agree h a ha, eval_agree h b hb, eval_agree h c hc,
      eval_agree h d hd]
  | .ite c a b, ⟨_, hc, ha, hb⟩ => by
    simp only [eval, eval_agree h a ha, eval_agree h b hb, eval_agree h c hc]
  | .ccall _ _ _ args, ⟨_, hargs⟩ => by
    simp only [eval]
    congr 1
    exact List.ofFn_inj.mpr (funext fun i => eval_agree h (args i) (hargs i))

/-- No node reads a temporary from `m` on. -/
def IRExpr.tmpBelow (m : Nat) : IRExpr → Prop
  | .rdTmp t => t < m
  | _ => True

/-- An expression reads only temporaries below `m`. -/
def IRExpr.tmpsBelow (m : Nat) (e : IRExpr) : Prop := e.all (IRExpr.tmpBelow m)

theorem IRExpr.tmpsBelow.mono {m m' : Nat} (h : m ≤ m') {e : IRExpr} (he : e.tmpsBelow m) :
    e.tmpsBelow m' :=
  IRExpr.all_imp (fun e' he' => by cases e' <;> first | trivial | exact lt_of_lt_of_le he' h) e he

theorem IRExpr.inScope.tmpsBelow {e : IRExpr} (he : e.inScope n total) : e.tmpsBelow n :=
  IRExpr.all_imp (fun e' he' => by cases e' <;> trivial) e he

/-- Two states with the same guest state and memory, whose temporaries agree below `m`,
give an expression reading below `m` the same value. -/
theorem eval_tmps_congr {s₁ : State V T₁} {s₂ : State V T₂} {m : Nat} (hg : s₁.guest = s₂.guest)
    (hm : s₁.mem = s₂.mem) (ht : ∀ t < m, s₁.tmps t = s₂.tmps t) :
    ∀ e : IRExpr, e.tmpsBelow m → eval I s₁ e = eval I s₂ e
  | .const _, _ => rfl
  | .get _ _, _ => by simp only [eval, hg]
  | .rdTmp t, h => ht t h
  | .getI _ ix _, ⟨_, hix⟩ => by simp only [eval, eval_tmps_congr hg hm ht ix hix, hg]
  | .load _ a, ⟨_, ha⟩ => by simp only [eval, eval_tmps_congr hg hm ht a ha, hm]
  | .unop _ a, ⟨_, ha⟩ => by simp only [eval, eval_tmps_congr hg hm ht a ha]
  | .binop _ a b, ⟨_, ha, hb⟩ => by
    simp only [eval, eval_tmps_congr hg hm ht a ha, eval_tmps_congr hg hm ht b hb]
  | .triop _ a b c, ⟨_, ha, hb, hc⟩ => by
    simp only [eval, eval_tmps_congr hg hm ht a ha, eval_tmps_congr hg hm ht b hb,
      eval_tmps_congr hg hm ht c hc]
  | .qop _ a b c d, ⟨_, ha, hb, hc, hd⟩ => by
    simp only [eval, eval_tmps_congr hg hm ht a ha, eval_tmps_congr hg hm ht b hb,
      eval_tmps_congr hg hm ht c hc, eval_tmps_congr hg hm ht d hd]
  | .ite c a b, ⟨_, hc, ha, hb⟩ => by
    simp only [eval, eval_tmps_congr hg hm ht a ha, eval_tmps_congr hg hm ht b hb,
      eval_tmps_congr hg hm ht c hc]
  | .ccall _ _ _ args, ⟨_, hargs⟩ => by
    simp only [eval]
    congr 1
    exact List.ofFn_inj.mpr (funext fun i => eval_tmps_congr hg hm ht (args i) (hargs i))

/-- Reassigning temporaries from `m` on does not change an expression reading below `m`. -/
theorem eval_with_tmps {s : State V T} {f : Nat → V} {m : Nat} (hf : ∀ t < m, f t = s.tmps t)
    (e : IRExpr) (he : e.tmpsBelow m) : eval I { s with tmps := f } e = eval I s e :=
  eval_tmps_congr I (show ({ s with tmps := f } : State V T).guest = s.guest from rfl) rfl hf e he

/-- The tool state and the exit play no part in evaluation. -/
theorem eval_tool (s : State V T) (x : T) (exit : Option IRConst) (e : IRExpr) :
    eval I ⟨s.tmps, s.guest, s.mem, x, exit⟩ e = eval I s e := by
  induction e <;> simp only [eval, *]

/-- Evaluation from a state whose temporaries agree below `m`, with any tool state and exit. -/
theorem eval_mk_of_tmpsBelow (s : State V T) {f : Nat → V} {m : Nat}
    (hf : ∀ t < m, f t = s.tmps t) (x : T) (exit : Option IRConst) (e : IRExpr)
    (he : e.tmpsBelow m) : eval I ⟨f, s.guest, s.mem, x, exit⟩ e = eval I s e :=
  eval_tmps_congr I (show (⟨f, s.guest, s.mem, x, exit⟩ : State V T).guest = s.guest from rfl) rfl
    hf e he

theorem eval_update_tmps {s : State V T} {f g : Nat → V} {m : Nat} (h : ∀ t < m, f t = g t)
    (e : IRExpr) (he : e.tmpsBelow m) :
    eval I { s with tmps := f } e = eval I { s with tmps := g } e :=
  eval_tmps_congr I (show ({ s with tmps := f } : State V T).guest =
    ({ s with tmps := g } : State V T).guest from rfl) rfl h e he

/-- The type of an in-scope expression depends only on the types of the temporaries below
`n`. -/
theorem type_agree {tyenv₁ tyenv₂ : List IRType}
    (h : ∀ t < n, tyenv₁.getD t .i64 = tyenv₂.getD t .i64) :
    ∀ e : IRExpr, e.inScope n total → e.type tyenv₁ = e.type tyenv₂
  | .rdTmp t, ht => h t ht
  | .ite _ a _, ⟨_, _, ha, _⟩ => type_agree h a ha
  | .const _, _ | .get _ _, _ | .getI _ _ _, _ | .load _ _, _ | .unop _ _, _
  | .binop _ _ _, _ | .triop _ _ _ _, _ | .qop _ _ _ _ _, _ | .ccall _ _ _ _, _ => rfl

/-! ## One statement -/

section Step

variable {tyenv₁ tyenv₂ : List IRType}
  (hty : ∀ t < n, tyenv₁.getD t .i64 = tyenv₂.getD t .i64)
  {s₁ : State V T₁} {s₂ : State V T₂}

include hty in
/-- A compare-and-swap of the original block, from agreeing states. -/
theorem execCAS_agree (h : Agree n total s₁ s₂) (c : IRCAS) (hc : (IRStmt.cas c).inScope n total) :
    Agree n total (execCAS I tyenv₁ s₁ c) (execCAS I tyenv₂ s₂ c) := by
  obtain ⟨ha, he, hd, heHi, hdHi⟩ := hc
  simp only [execCAS, eval_agree I h _ ha, eval_agree I h _ he, eval_agree I h _ hd,
    type_agree hty _ he, h.mem]
  rcases c with ⟨_ | tHi, oldLo, addr, _ | eHi, expdLo, _ | dHi, dataLo⟩ <;>
    simp only [Option.mem_def, Option.some.injEq, forall_eq'] at heHi hdHi ⊢
  all_goals first
    | (simp only [eval_agree I h _ heHi, eval_agree I h _ hdHi]; split_ifs)
    | split_ifs
  all_goals exact ⟨fun t ht => by simp only [Function.update_apply, h.tmps t ht], h.guest, rfl,
    h.exit⟩

/-- A dirty call of the original block, from agreeing states: the callee is the guest's,
so the tool's helpers and state play no part. -/
theorem callDirty_agree (hI : I.GuestLocal total) (tc₁ : ToolCall V T₁) (tc₂ : ToolCall V T₂)
    (h : Agree n total s₁ s₂) (d : IRDirty) (hd : (IRStmt.dirty d).inScope n total) :
    Agree n total (callDirty I tc₁ s₁ d) (callDirty I tc₂ s₂ d) := by
  obtain ⟨hcee, -, hargs⟩ := hd
  obtain ⟨cee, guard, args, tmp⟩ := d
  cases cee
  case guest name =>
    have hmap : args.map (eval I s₁) = args.map (eval I s₂) :=
      List.map_congr_left fun e he => eval_agree I h e (hargs e he)
    obtain ⟨hr, hm, hg⟩ := hI name (args.map (eval I s₂)) s₁.guest s₂.guest s₂.mem h.guest
    simp only [callDirty, hmap, h.mem]
    exact ⟨setTmp_agree h.tmps _ fun _ _ _ => hr, hg, hm, h.exit⟩
  all_goals simp [IRCallee.isGuest] at hcee

include hty in
/-- One statement of the original block, from agreeing states, run with possibly different
type environments (agreeing below `n`) and tools. -/
theorem execStmt_agree (hI : I.GuestLocal total) (tc₁ : ToolCall V T₁) (tc₂ : ToolCall V T₂)
    (h : Agree n total s₁ s₂) : ∀ st : IRStmt, st.inScope n total →
      Agree n total (execStmt I tc₁ tyenv₁ s₁ st) (execStmt I tc₂ tyenv₂ s₂ st)
  | .noOp, _ | .imark, _ | .abiHint, _ | .mbe, _ => h
  | .put _ data, hd => by
    simp only [execStmt, eval_agree I h data hd, type_agree hty data hd]
    exact ⟨h.tmps, writeBytes_agree h.guest _ _, h.mem, h.exit⟩
  | .putI _ ix _ data, ⟨hix, hd⟩ => by
    simp only [execStmt, eval_agree I h ix hix, eval_agree I h data hd]
    exact ⟨h.tmps, writeBytes_agree h.guest _ _, h.mem, h.exit⟩
  | .wrTmp t data, hd => by
    simp only [execStmt, eval_agree I h data hd]
    exact ⟨update_agree h.tmps t fun _ => rfl, h.guest, h.mem, h.exit⟩
  | .store a d, ⟨ha, hd⟩ => by
    simp only [execStmt, eval_agree I h a ha, eval_agree I h d hd, type_agree hty d hd, h.mem]
    exact ⟨h.tmps, h.guest, rfl, h.exit⟩
  | .storeG a d g, ⟨ha, hd, hg⟩ => by
    simp only [execStmt, eval_agree I h a ha, eval_agree I h d hd, eval_agree I h g hg,
      type_agree hty d hd, h.mem]
    split_ifs
    · exact ⟨h.tmps, h.guest, rfl, h.exit⟩
    · exact h
  | .loadG _ dst a alt g, ⟨ha, halt, hg⟩ => by
    simp only [execStmt, eval_agree I h a ha, eval_agree I h alt halt, eval_agree I h g hg, h.mem]
    exact ⟨update_agree h.tmps dst fun hd => by rw [hty dst hd], h.guest, rfl, h.exit⟩
  | .cas c, hc => execCAS_agree I hty h c hc
  | .llsc result a none, ⟨ha, _⟩ => by
    simp only [execStmt, eval_agree I h a ha, h.mem]
    exact ⟨update_agree h.tmps result fun hd => by rw [hty result hd], h.guest, rfl, h.exit⟩
  | .llsc result a (some data), ⟨ha, hd⟩ => by
    have hd := hd data rfl
    simp only [execStmt, eval_agree I h a ha, eval_agree I h data hd, type_agree hty data hd,
      h.mem]
    exact ⟨update_agree h.tmps result fun _ => rfl, h.guest, rfl, h.exit⟩
  | .dirty d, hd => by
    simp only [execStmt, eval_agree I h d.guard hd.2.1]
    split_ifs
    · exact callDirty_agree I hI tc₁ tc₂ h d hd
    · refine ⟨setTmp_agree h.tmps d.tmp fun t ht htn => ?_, h.guest, h.mem, h.exit⟩
      simp only [Option.mem_def] at ht
      simp only [ht, Option.elim, hty t htn]
  | .exit g _, hg => by
    simp only [execStmt, eval_agree I h g hg]
    split_ifs
    · exact ⟨h.tmps, h.guest, h.mem, rfl⟩
    · exact h

end Step

/-! ## Instrumentation statements -/

theorem setTmp_apply_of_ne (f : Nat → V) {o : Option Nat} (v : V) {x : Nat}
    (h : ∀ t ∈ o, x ≠ t) : setTmp f o v x = f x := by
  cases o with
  | none => rfl
  | some t => exact Function.update_noteq (h t rfl) _ _

/-- A dirty call of a tool helper updates the temporary and the tool state only. -/
theorem callDirty_of_tool (tc : ToolCall V T) (s : State V T) (d : IRDirty)
    (h : d.cee.isGuest = false) :
    callDirty I tc s d =
      { s with tmps := setTmp s.tmps d.tmp (tc d.cee (d.args.map (eval I s)) s.tool).1,
               tool := (tc d.cee (d.args.map (eval I s)) s.tool).2 } := by
  obtain ⟨cee, guard, args, tmp⟩ := d
  cases cee
  case guest => cases h
  all_goals rfl

/-- A shadow-only statement, run with any tool, leaves what the original block observes
alone. -/
theorem execStmt_shadowOnly (tc : ToolCall V T) (tyenv : List IRType) (s : State V T) :
    ∀ st : IRStmt, st.shadowOnly n total → Agree n total s (execStmt I tc tyenv s st)
  | .noOp, _ | .imark, _ | .abiHint, _ | .mbe, _ => Agree.refl n total s
  | .wrTmp t _, (ht : n ≤ t) =>
    ⟨fun _ hx => (Function.update_noteq (by omega) _ _).symm, fun _ _ => rfl, rfl, rfl⟩
  | .put off _, (ho : total ≤ off) =>
    ⟨fun _ _ => rfl, fun _ hx => (writeBytes_apply_of_lt _ _ _ (by omega)).symm, rfl, rfl⟩
  | .putI d _ _ _, (hb : total ≤ d.base) =>
    ⟨fun _ _ => rfl, fun _ hx => (writeBytes_apply_of_lt _ _ _
      (by simp only [IRRegArray.elemOffset]; omega)).symm, rfl, rfl⟩
  | .dirty d, ⟨hcee, htmp⟩ => by
    have htmps : ∀ v : V, ∀ t < n, s.tmps t = setTmp s.tmps d.tmp v t :=
      fun v t ht => (setTmp_apply_of_ne _ v fun u hu => by have := htmp u hu; omega).symm
    simp only [execStmt]
    split_ifs
    · rw [callDirty_of_tool I tc s d hcee]
      exact ⟨htmps _, fun _ _ => rfl, rfl, rfl⟩
    · exact ⟨htmps _, fun _ _ => rfl, rfl, rfl⟩
  | .store _ _, h | .storeG _ _ _, h | .loadG _ _ _ _ _, h | .cas _, h | .llsc _ _ _, h
  | .exit _ _, h => (h : False).elim

/-- A run of shadow-only statements leaves what the original block observes alone. -/
theorem execStmts_shadowOnly (tc : ToolCall V T) (tyenv : List IRType) :
    ∀ (sh : List IRStmt) (s : State V T), (∀ st ∈ sh, st.shadowOnly n total) →
      Agree n total s (execStmts I tc tyenv s sh)
  | [], s, _ => Agree.refl n total s
  | st :: sh, s, hsh => by
    cases he : s.exit with
    | some _ => rw [execStmts_cons_of_exit I tc tyenv he]; exact Agree.refl n total s
    | none =>
      rw [execStmts_cons_of_running I tc tyenv he]
      exact (execStmt_shadowOnly I tc tyenv s st (hsh st (List.mem_cons_self _ _))).trans
        (execStmts_shadowOnly tc tyenv sh _ fun st' h => hsh st' (List.mem_cons_of_mem _ h))

/-- Running `hs` from any running state assigns temporaries from `m` on and changes
nothing else. -/
def FreshRun (tc : ToolCall V T) (tyenv : List IRType) (m : Nat) (hs : List IRStmt) : Prop :=
  ∀ s : State V T, s.exit = none → ∃ f : Nat → V,
    execStmts I tc tyenv s hs = { s with tmps := f } ∧ ∀ t < m, f t = s.tmps t

namespace FreshRun

variable {I} {tc : ToolCall V T} {tyenv : List IRType} {m : Nat} {hs₁ hs₂ : List IRStmt}

theorem nil : FreshRun I tc tyenv m [] := fun s _ => ⟨s.tmps, rfl, fun _ _ => rfl⟩

theorem append (h₁ : FreshRun I tc tyenv m hs₁) (h₂ : FreshRun I tc tyenv m hs₂) :
    FreshRun I tc tyenv m (hs₁ ++ hs₂) := by
  intro s hs
  obtain ⟨f₁, hr₁, hf₁⟩ := h₁ s hs
  obtain ⟨f₂, hr₂, hf₂⟩ := h₂ { s with tmps := f₁ } hs
  refine ⟨f₂, ?_, fun t ht => (hf₂ t ht).trans (hf₁ t ht)⟩
  rw [execStmts_append, hr₁, hr₂]

theorem mono {m' : Nat} (h : FreshRun I tc tyenv m' hs₁) (hm : m ≤ m') :
    FreshRun I tc tyenv m hs₁ := fun s hs =>
  let ⟨f, hr, hf⟩ := h s hs
  ⟨f, hr, fun t ht => hf t (lt_of_lt_of_le ht hm)⟩

end FreshRun

/-! ## Whole blocks -/

/-- The statements of an instrumented block: those of the original block, in order and
unchanged, with shadow-only statements interleaved. -/
inductive Interleaved (n total : Nat) : List IRStmt → List IRStmt → Prop
  | nil : Interleaved n total [] []
  | orig {st : IRStmt} {sts out : List IRStmt} :
    Interleaved n total sts out → Interleaved n total (st :: sts) (st :: out)
  | shadow {st : IRStmt} {sts out : List IRStmt} :
    st.shadowOnly n total → Interleaved n total sts out → Interleaved n total sts (st :: out)

theorem Interleaved.append {n total : Nat} {sts₁ out₁ sts₂ out₂ : List IRStmt}
    (h₁ : Interleaved n total sts₁ out₁) (h₂ : Interleaved n total sts₂ out₂) :
    Interleaved n total (sts₁ ++ sts₂) (out₁ ++ out₂) := by
  induction h₁ with
  | nil => exact h₂
  | orig _ ih => exact .orig ih
  | shadow hs _ ih => exact .shadow hs ih

/-- Shadow-only statements in front of an interleaving. -/
theorem Interleaved.shadows {n total : Nat} {sh sts out : List IRStmt}
    (hsh : ∀ st ∈ sh, st.shadowOnly n total) (h : Interleaved n total sts out) :
    Interleaved n total sts (sh ++ out) := by
  induction sh with
  | nil => exact h
  | cons st sh ih =>
    exact .shadow (hsh st (List.mem_cons_self _ _)) (ih fun s hs => hsh s (List.mem_cons_of_mem _ hs))

/-- The simulation: running the original statements from one state and the interleaved
ones from an agreeing state, with any tools, ends in agreeing states. -/
theorem execStmts_interleaved (hI : I.GuestLocal total) {tyenv₁ tyenv₂ : List IRType}
    (hty : ∀ t < n, tyenv₁.getD t .i64 = tyenv₂.getD t .i64)
    (tc₁ : ToolCall V T₁) (tc₂ : ToolCall V T₂) {orig out : List IRStmt}
    (hio : Interleaved n total orig out) (hsc : ∀ st ∈ orig, st.inScope n total)
    {s₁ : State V T₁} {s₂ : State V T₂} (h : Agree n total s₁ s₂) :
    Agree n total (execStmts I tc₁ tyenv₁ s₁ orig) (execStmts I tc₂ tyenv₂ s₂ out) := by
  induction hio generalizing s₁ s₂ with
  | nil => exact h
  | @orig st sts out _ ih =>
    have hsc' := fun st' hst => hsc st' (List.mem_cons_of_mem st hst)
    cases he : s₁.exit with
    | some dst =>
      rw [execStmts_cons_of_exit I tc₁ tyenv₁ he,
        execStmts_cons_of_exit I tc₂ tyenv₂ (h.exit ▸ he)]
      exact h
    | none =>
      rw [execStmts_cons_of_running I tc₁ tyenv₁ he,
        execStmts_cons_of_running I tc₂ tyenv₂ (h.exit ▸ he)]
      exact ih hsc' (execStmt_agree I hty hI tc₁ tc₂ h st (hsc st (List.mem_cons_self _ _)))
  | @shadow st sts out hsh _ ih =>
    cases he : s₂.exit with
    | some dst =>
      rw [execStmts_cons_of_exit I tc₂ tyenv₂ he, execStmts_of_exit I tc₁ tyenv₁ (h.exit.trans he)]
      exact h
    | none =>
      rw [execStmts_cons_of_running I tc₂ tyenv₂ he]
      exact ih hsc (h.trans (execStmt_shadowOnly I tc₂ tyenv₂ s₂ st hsh))

/-- Agreeing final states jump to the same place. -/
theorem jumpTarget_agree {sb₁ sb₂ : IRSB} (hnext : sb₁.next = sb₂.next)
    (hsc : sb₁.next.inScope n total) {s₁ : State V T₁} {s₂ : State V T₂}
    (h : Agree n total s₁ s₂) : jumpTarget I sb₁ s₁ = jumpTarget I sb₂ s₂ := by
  simp only [jumpTarget, ← hnext, h.exit, eval_agree I h _ hsc]

end Derivgrind
