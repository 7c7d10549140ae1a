import Derivgrind.Bar.Frame

/-!
# Derivgrind.Bar.Agree

`dg_instrument` in recording mode does not change what the client program computes.

The statement handler `dg_bar_handle_statement` (`add_statement_modified` with the dg_bar
callbacks, not in the repository) is a parameter: what is assumed of it is that it emits
shadow-only statements (`HandlerShadowOnly`), as every callback does (`BarCallback.emit_grows`),
and that for each CAS it returns a success temporary for, its statements test that success
(`HandlerTestsCAS`). The input statements are then related to the output statements piece by
piece (`Simulates`): a copied statement after shadow-only ones, or a CAS after the test of its
success and the replacement `dg_original_statement` emits (`Simulates.cas`). Composed along the
fold of `dg_instrument` this gives `dgInstrument_agree`; `dgInstrument_preserves_client`
collects it with the layout of the temporaries and the facts of `Derivgrind.Bar.Frame`.
-/

namespace Derivgrind

/-! ## Simulation -/

section Block

variable {V T₁ T₂ : Type} (I : Interp V) (tc₁ : ToolCall V T₁) (tc₂ : ToolCall V T₂)
  (tyenv₁ tyenv₂ : List IRType) (n total : Nat)

/-- Running `out` from a state that agrees with the one `orig` runs from ends in a state that
agrees with the one `orig` ends in. -/
def Simulates (orig out : List IRStmt) : Prop :=
  ∀ (s₁ : State V T₁) (s₂ : State V T₂), Agree n total s₁ s₂ →
    Agree n total (execStmts I tc₁ tyenv₁ s₁ orig) (execStmts I tc₂ tyenv₂ s₂ out)

variable {I tc₁ tc₂ tyenv₁ tyenv₂ n total}

theorem Simulates.append {orig₁ out₁ orig₂ out₂ : List IRStmt}
    (h₁ : Simulates I tc₁ tc₂ tyenv₁ tyenv₂ n total orig₁ out₁)
    (h₂ : Simulates I tc₁ tc₂ tyenv₁ tyenv₂ n total orig₂ out₂) :
    Simulates I tc₁ tc₂ tyenv₁ tyenv₂ n total (orig₁ ++ orig₂) (out₁ ++ out₂) := fun s₁ s₂ h => by
  rw [execStmts_append, execStmts_append]
  exact h₂ _ _ (h₁ s₁ s₂ h)

theorem Simulates.of_interleaved (hI : I.GuestLocal total)
    (hty : ∀ t < n, tyenv₁.getD t .i64 = tyenv₂.getD t .i64) {orig out : List IRStmt}
    (hio : Interleaved n total orig out) (hsc : ∀ st ∈ orig, st.inScope n total) :
    Simulates I tc₁ tc₂ tyenv₁ tyenv₂ n total orig out :=
  fun _ _ h => execStmts_interleaved I hI hty tc₁ tc₂ hio hsc h

/-- A CAS, against shadow-only statements that test its success into `cs` followed by the
statements `dg_original_statement` puts in its place. -/
theorem Simulates.cas (ext : Interp Nat) {tc₁ : ToolCall Nat T₁} {tc₂ : ToolCall Nat T₂}
    (hty : ∀ t < n, tyenv₁.getD t .i64 = tyenv₂.getD t .i64) {sb : IRSB} {c : IRCAS}
    {cs : Nat} {sh : List IRStmt} (hsh : ∀ st ∈ sh, st.shadowOnly n total)
    (hc : (IRStmt.cas c).inScope n total) (hrep : c.Replaceable tyenv₂ cs)
    (htype : c.expdLo.type sb.tyenv = c.expdLo.type tyenv₂)
    (htest : TestsCAS (bitsInterp ext) tc₂ tyenv₂ sh c cs) :
    Simulates (bitsInterp ext) tc₁ tc₂ tyenv₁ tyenv₂ n total [.cas c]
      (sh ++ (dgOriginalStatement (some cs) sb (.cas c)).stmts.drop sb.stmts.length) := by
  intro s₁ s₂ h
  have h' := h.trans (execStmts_shadowOnly (bitsInterp ext) tc₂ tyenv₂ sh s₂ hsh)
  rw [execStmts_append]
  cases he : s₁.exit with
  | some _ =>
    rw [execStmts_of_exit _ _ _ he, execStmts_of_exit _ _ _ (h'.exit.symm.trans he)]
    exact h'
  | none =>
    simp only [execStmts_cons_of_running _ _ _ he, execStmts_nil, execStmt]
    rw [execStmts_dgOriginalStatement_cas ext tc₂ tyenv₂ hrep htype (h'.exit.symm.trans he)
      (htest s₂ (h.exit.symm.trans he))]
    exact execCAS_agree _ hty h' c hc

end Block

theorem dgOriginalStatement_grows (cs : Option Nat) (sb : IRSB) (st : IRStmt) :
    Grows (fun _ => True) sb (dgOriginalStatement cs sb st) := by
  have add : ∀ sb st, Grows (fun _ => True) sb (addStmtToIRSB sb st) :=
    fun sb st => Grows.addStmt sb st trivial
  unfold dgOriginalStatement
  split
  · dsimp only
    split <;> split
    all_goals first
      | exact (((add _ _).trans (add _ _)).trans (add _ _)).trans (add _ _)
      | exact ((add _ _).trans (add _ _)).trans (add _ _)
      | exact (add _ _).trans (add _ _)
  · exact add _ _

theorem dgOriginalStatement_of_not_cas {cs : Option Nat} {st : IRStmt}
    (h : ∀ c c', st = .cas c → cs = some c' → False) (sb : IRSB) :
    dgOriginalStatement cs sb st = addStmtToIRSB sb st := by
  unfold dgOriginalStatement
  split
  · exact (h _ _ rfl rfl).elim
  · rfl

/-- The statement handler emits shadow-only statements: it writes temporaries from the input
block's count on, guest bytes from `total_sizeB` on, and the tool's state through its
helpers. -/
def HandlerShadowOnly (handle : DiffEnv → IRSB → IRStmt → IRSB × Option Nat) : Prop :=
  ∀ env sb st, env.tOffset ≤ sb.tyenv.length →
    Grows (IRStmt.shadowOnly env.tOffset env.totalSizeB) sb (handle env sb st).1

/-- Every CAS the statement handler returns a success temporary for can be replaced, and the
handler's statements, run under `tyenv`, test its success into that temporary. -/
def HandlerTestsCAS {T : Type} (I : Interp Nat) (tc : ToolCall Nat T) (tyenv tyenvIn : List IRType)
    (handle : DiffEnv → IRSB → IRStmt → IRSB × Option Nat) : Prop :=
  ∀ env sb c cs, (handle env sb (.cas c)).2 = some cs →
    c.Replaceable tyenvIn cs ∧
      TestsCAS I tc tyenv ((handle env sb (.cas c)).1.stmts.drop sb.stmts.length) c cs

section Instrument

variable {handle : DiffEnv → IRSB → IRStmt → IRSB × Option Nat} {tyenv₁ : List IRType}
  {total : Nat}

/-- The output block of `dg_instrument` only grows. -/
theorem foldl_dgOriginalStatement_grows (hgrow : HandlerShadowOnly handle) :
    ∀ (sts : List IRStmt) (sb : IRSB), tyenv₁.length ≤ sb.tyenv.length →
      Grows (fun _ => True) sb (sts.foldl (fun sb st =>
        dgOriginalStatement (handle ⟨tyenv₁.length, total⟩ sb st).2
          (handle ⟨tyenv₁.length, total⟩ sb st).1 st) sb)
  | [], sb, _ => Grows.refl sb
  | st :: sts, sb, hle => by
    have h₁ := ((hgrow ⟨tyenv₁.length, total⟩ sb st hle).imp fun _ _ => trivial).trans
      (dgOriginalStatement_grows (handle ⟨tyenv₁.length, total⟩ sb st).2 _ st)
    exact h₁.trans (foldl_dgOriginalStatement_grows hgrow sts _ (le_trans hle h₁.length_le))

variable (ext : Interp Nat) {T₁ T₂ : Type} (tc₁ : ToolCall Nat T₁) {tc₂ : ToolCall Nat T₂}
  {tyenv₂ : List IRType}

/-- One statement of the input block against what `dg_instrument` emits for it. -/
theorem dgOriginalStatement_simulates (hI : (bitsInterp ext).GuestLocal total)
    (hgrow : HandlerShadowOnly handle) (hcas : HandlerTestsCAS (bitsInterp ext) tc₂ tyenv₂ tyenv₁ handle)
    (hty₂ : ∀ t < tyenv₁.length, tyenv₁.getD t .i64 = tyenv₂.getD t .i64)
    {sb : IRSB} (hsb : ∃ extra, sb.tyenv = tyenv₁ ++ extra) {st : IRStmt}
    (hst : st.inScope tyenv₁.length total) :
    Simulates (bitsInterp ext) tc₁ tc₂ tyenv₁ tyenv₂ tyenv₁.length total [st]
      ((dgOriginalStatement (handle ⟨tyenv₁.length, total⟩ sb st).2
        (handle ⟨tyenv₁.length, total⟩ sb st).1 st).stmts.drop sb.stmts.length) := by
  obtain ⟨e, he⟩ := hsb
  have hg := hgrow ⟨tyenv₁.length, total⟩ sb st (by simp [he])
  rw [hg.drop_append (dgOriginalStatement_grows _ _ st)]
  obtain ⟨⟨e', he'⟩, ⟨sh, hsh, hsho⟩, -⟩ := hg
  have hdrop : (handle ⟨tyenv₁.length, total⟩ sb st).1.stmts.drop sb.stmts.length = sh := by
    rw [hsh, List.drop_left]
  rw [hdrop]
  by_cases hc : ∃ c cs, st = .cas c ∧ (handle ⟨tyenv₁.length, total⟩ sb st).2 = some cs
  · obtain ⟨c, cs, rfl, hr⟩ := hc
    obtain ⟨hrep, htest⟩ := hcas _ sb c cs hr
    rw [hdrop] at htest
    have hty : ∀ t < tyenv₁.length,
        (handle ⟨tyenv₁.length, total⟩ sb (.cas c)).1.tyenv.getD t .i64 = tyenv₂.getD t .i64 :=
      fun t ht => by rw [he', he, List.append_assoc, List.getD_append _ _ _ _ ht, hty₂ t ht]
    rw [hr]
    exact Simulates.cas ext hty₂ hsho hst (hrep.congr_tyenv hty₂ hst) (type_agree hty _ hst.2.1)
      htest
  · rw [dgOriginalStatement_of_not_cas (fun c cs h₁ h₂ => hc ⟨c, cs, h₁, h₂⟩)]
    simp only [addStmtToIRSB, List.drop_left]
    exact Simulates.of_interleaved hI hty₂ (Interleaved.shadows hsho (.orig .nil))
      (by simpa using hst)

/-- The fold of `dg_instrument` over the input statements. -/
theorem foldl_dgOriginalStatement_simulates (hI : (bitsInterp ext).GuestLocal total)
    (hgrow : HandlerShadowOnly handle) (hcas : HandlerTestsCAS (bitsInterp ext) tc₂ tyenv₂ tyenv₁ handle)
    (hty₂ : ∀ t < tyenv₁.length, tyenv₁.getD t .i64 = tyenv₂.getD t .i64) :
    ∀ (sts : List IRStmt) (sb : IRSB), (∃ extra, sb.tyenv = tyenv₁ ++ extra) →
      (∀ st ∈ sts, st.inScope tyenv₁.length total) →
      Simulates (bitsInterp ext) tc₁ tc₂ tyenv₁ tyenv₂ tyenv₁.length total sts
        ((sts.foldl (fun sb st => dgOriginalStatement (handle ⟨tyenv₁.length, total⟩ sb st).2
          (handle ⟨tyenv₁.length, total⟩ sb st).1 st) sb).stmts.drop sb.stmts.length)
  | [], sb, _, _ => by
    simp only [List.foldl_nil, List.drop_length]
    exact fun _ _ h => h
  | st :: sts, sb, ⟨e, he⟩, hsc => by
    have h₁ := ((hgrow ⟨tyenv₁.length, total⟩ sb st (by simp [he])).imp fun _ _ => trivial).trans
      (dgOriginalStatement_grows (handle ⟨tyenv₁.length, total⟩ sb st).2 _ st)
    obtain ⟨e₁, he₁⟩ := h₁.tyenv
    rw [List.foldl_cons, h₁.drop_append (foldl_dgOriginalStatement_grows hgrow sts _
      (by simp [he₁, he]))]
    exact (dgOriginalStatement_simulates ext tc₁ hI hgrow hcas hty₂ ⟨e, he⟩
      (hsc st (List.mem_cons_self _ _))).append
      (foldl_dgOriginalStatement_simulates hI hgrow hcas hty₂ sts _ ⟨e ++ e₁, by simp [he₁, he]⟩
        fun st' h => hsc st' (List.mem_cons_of_mem _ h))

end Instrument

/-! ## The instrumented block -/

/-- The type environment `dg_instrument` gives the output block: that of the input block, two
copies of it for the shadow temporaries `t + n` and `t + 2 * n`, then the helpers'. -/
def ShadowLayout (tyenvIn tyenvOut : List IRType) : Prop :=
  ∃ extra, tyenvOut = tyenvIn ++ tyenvIn ++ tyenvIn ++ extra

/-- Under the layout, a temporary of the input block and its two shadow temporaries have its
type. -/
theorem ShadowLayout.getD_shadow {tyenvIn tyenvOut : List IRType}
    (h : ShadowLayout tyenvIn tyenvOut) {t : Nat} (ht : t < tyenvIn.length) :
    tyenvOut.getD t .i64 = tyenvIn.getD t .i64 ∧
      tyenvOut.getD (t + tyenvIn.length) .i64 = tyenvIn.getD t .i64 ∧
      tyenvOut.getD (t + 2 * tyenvIn.length) .i64 = tyenvIn.getD t .i64 := by
  obtain ⟨extra, rfl⟩ := h
  simp only [List.append_assoc]
  refine ⟨List.getD_append _ _ _ _ ht, ?_, ?_⟩
  · rw [List.getD_append_right _ _ _ _ (by omega), Nat.add_sub_cancel,
      List.getD_append _ _ _ _ ht]
  · rw [List.getD_append_right _ _ _ _ (by omega), List.getD_append_right _ _ _ _ (by omega),
      show t + 2 * tyenvIn.length - tyenvIn.length - tyenvIn.length = t by omega,
      List.getD_append _ _ _ _ ht]

/-- Under the layout, a temporary allocated later comes after every shadow temporary. -/
theorem ShadowLayout.length_le {tyenvIn tyenvOut : List IRType}
    (h : ShadowLayout tyenvIn tyenvOut) : 3 * tyenvIn.length ≤ tyenvOut.length := by
  obtain ⟨extra, rfl⟩ := h
  simp only [List.length_append]
  omega

/-- `sbOut` computes what `sbIn` computes: from every state it ends with the same temporaries
of `sbIn`, guest bytes below `total`, memory and exit, and jumps to the same place. -/
def PreservesClient {V T : Type} (I : Interp V) (tc : ToolCall V T) (total : Nat)
    (sbIn sbOut : IRSB) : Prop :=
  ∀ s : State V T,
    Agree sbIn.tyenv.length total (execStmts I tc sbIn.tyenv s sbIn.stmts)
        (execStmts I tc sbOut.tyenv s sbOut.stmts) ∧
      jumpTarget I sbIn (execStmts I tc sbIn.tyenv s sbIn.stmts) =
        jumpTarget I sbOut (execStmts I tc sbOut.tyenv s sbOut.stmts)

section Instrument

variable {handle : DiffEnv → IRSB → IRStmt → IRSB × Option Nat} {totalSizeB : Nat} {sbIn : IRSB}

theorem dgInstrument_eq (handle : DiffEnv → IRSB → IRStmt → IRSB × Option Nat) (totalSizeB : Nat)
    (sbIn : IRSB) :
    dgInstrument handle totalSizeB sbIn =
      (sbIn.stmts.dropWhile fun st => !st.isIMark).foldl (fun sb st =>
        dgOriginalStatement (handle ⟨sbIn.tyenv.length, totalSizeB⟩ sb st).2
          (handle ⟨sbIn.tyenv.length, totalSizeB⟩ sb st).1 st)
        ⟨sbIn.tyenv ++ sbIn.tyenv ++ sbIn.tyenv, sbIn.stmts.takeWhile fun st => !st.isIMark,
          sbIn.next⟩ := rfl

/-- The output block grows from the statements before the first `IMark`, with the layout's
type environment. -/
theorem dgInstrument_grows (hgrow : HandlerShadowOnly handle) :
    Grows (fun _ => True)
      ⟨sbIn.tyenv ++ sbIn.tyenv ++ sbIn.tyenv, sbIn.stmts.takeWhile fun st => !st.isIMark, sbIn.next⟩
      (dgInstrument handle totalSizeB sbIn) :=
  foldl_dgOriginalStatement_grows hgrow _ _ (by simp)

theorem dgInstrument_shadowLayout (hgrow : HandlerShadowOnly handle) :
    ShadowLayout sbIn.tyenv (dgInstrument handle totalSizeB sbIn).tyenv :=
  (dgInstrument_grows hgrow).tyenv

/-- `dg_instrument` in recording mode preserves the client's computation, for every statement
handler that emits shadow-only statements and tests the success of each CAS it has replaced,
and every input block that reads only its own temporaries and guest bytes. -/
theorem dgInstrument_agree (ext : Interp Nat) (stale : Layer → Nat)
    (hI : (bitsInterp ext).GuestLocal totalSizeB) (hgrow : HandlerShadowOnly handle)
    (hcas : HandlerTestsCAS (bitsInterp ext) (barToolCall stale)
      (dgInstrument handle totalSizeB sbIn).tyenv sbIn.tyenv handle)
    (hsc : ∀ st ∈ sbIn.stmts, st.inScope sbIn.tyenv.length totalSizeB)
    (hnext : sbIn.next.inScope sbIn.tyenv.length totalSizeB) :
    PreservesClient (bitsInterp ext) (barToolCall stale) totalSizeB sbIn
      (dgInstrument handle totalSizeB sbIn) := by
  intro s
  have hg : Grows (fun _ => True)
      ⟨sbIn.tyenv ++ sbIn.tyenv ++ sbIn.tyenv, sbIn.stmts.takeWhile fun st => !st.isIMark, sbIn.next⟩
      (dgInstrument handle totalSizeB sbIn) := dgInstrument_grows hgrow
  obtain ⟨out, hout, -⟩ := hg.stmts
  dsimp only at hout
  have hty₂ : ∀ t < sbIn.tyenv.length,
      sbIn.tyenv.getD t .i64 = (dgInstrument handle totalSizeB sbIn).tyenv.getD t .i64 :=
    fun t ht => ((dgInstrument_shadowLayout hgrow).getD_shadow ht).1.symm
  have hsim := foldl_dgOriginalStatement_simulates ext (barToolCall stale) hI hgrow hcas hty₂
    (sbIn.stmts.dropWhile fun st => !st.isIMark)
    ⟨sbIn.tyenv ++ sbIn.tyenv ++ sbIn.tyenv, sbIn.stmts.takeWhile fun st => !st.isIMark, sbIn.next⟩
    ⟨sbIn.tyenv ++ sbIn.tyenv, by simp⟩ fun st h => hsc st (List.dropWhile_subset _ h)
  rw [← dgInstrument_eq, hout, List.drop_left] at hsim
  have hA := (Simulates.of_interleaved hI hty₂ (Interleaved.refl _ _
    (sbIn.stmts.takeWhile fun st => !st.isIMark)) fun st h => hsc st (List.takeWhile_subset _ h)).append
    hsim s s (Agree.refl _ _ s)
  rw [List.takeWhile_append_dropWhile, ← hout] at hA
  exact ⟨hA, jumpTarget_agree _ hg.next.symm hnext hA⟩

end Instrument

/-! ## Recording mode and the client -/

/-- Recording-mode instrumentation and the client's computation. The dg_bar callbacks emit only
statements that write shadow or helper temporaries, the shadow copies of the guest state, the
layers or the tape, and such a statement changes nothing else; the statements
`dg_original_statement` puts in place of a CAS whose success has been tested do what the CAS
does; `dg_instrument` gives each input temporary two shadow temporaries of its type, below every
helper temporary `dg_bar_writeToTape` allocates later; and the instrumented block computes what
the input block computes. -/
theorem dgInstrument_preserves_client (ext : Interp Nat) (stale : Layer → Nat) :
    (∀ (env : DiffEnv) (tyenv : List IRType) (sb : IRSB), env.tOffset ≤ sb.tyenv.length →
      ∀ cb : BarCallback, cb.Fits env tyenv →
        Grows (IRStmt.barShadowOnly env.tOffset env.totalSizeB tyenv) sb (cb.emit env sb)) ∧
    (∀ (n total : Nat) (tyenv : List IRType) (s : State Nat BarState) (st : IRStmt),
      st.barShadowOnly n total tyenv →
        BarFrame n total s (execStmt (bitsInterp ext) (barToolCall stale) tyenv s st)) ∧
    (∀ (tyenv : List IRType) (sb : IRSB) (c : IRCAS) (cs : Nat) (s : State Nat BarState),
      c.Replaceable tyenv cs → c.expdLo.type sb.tyenv = c.expdLo.type tyenv → s.exit = none →
      ((bitsInterp ext).isTrue (s.tmps cs) = true ↔ casSucceeds (bitsInterp ext) tyenv s c) →
        execStmts (bitsInterp ext) (barToolCall stale) tyenv s
            ((dgOriginalStatement (some cs) sb (.cas c)).stmts.drop sb.stmts.length) =
          execCAS (bitsInterp ext) tyenv s c) ∧
    (∀ (totalSizeB : Nat) (handle : DiffEnv → IRSB → IRStmt → IRSB × Option Nat) (sbIn : IRSB),
      HandlerShadowOnly handle →
        ShadowLayout sbIn.tyenv (dgInstrument handle totalSizeB sbIn).tyenv ∧
        (∀ (tyenv : List IRType) (sb : IRSB), ShadowLayout sbIn.tyenv sb.tyenv →
          ∀ i1Lo i1Hi i2Lo i2Hi d1 d2 : IRExpr,
            Grows (IRStmt.barShadowOnly (3 * sbIn.tyenv.length) totalSizeB tyenv) sb
              (dgBarWriteToTape sb i1Lo i1Hi i2Lo i2Hi d1 d2).2) ∧
        ((bitsInterp ext).GuestLocal totalSizeB →
          HandlerTestsCAS (bitsInterp ext) (barToolCall stale)
            (dgInstrument handle totalSizeB sbIn).tyenv sbIn.tyenv handle →
          (∀ st ∈ sbIn.stmts, st.inScope sbIn.tyenv.length totalSizeB) →
          sbIn.next.inScope sbIn.tyenv.length totalSizeB →
            PreservesClient (bitsInterp ext) (barToolCall stale) totalSizeB sbIn
              (dgInstrument handle totalSizeB sbIn))) :=
  ⟨fun env tyenv _ hn => BarCallback.emit_grows env tyenv hn,
    fun _ _ tyenv s => execStmt_barShadowOnly ext _ tyenv s,
    fun tyenv _ _ _ _ hrep htype hs hok => execStmts_dgOriginalStatement_cas ext _ tyenv hrep htype hs hok,
    fun _ _ _ hgrow => ⟨dgInstrument_shadowLayout hgrow,
      fun _ _ hl => dgBarWriteToTape_grows hl.length_le,
      fun hI hcas hsc hnext => dgInstrument_agree ext stale hI hgrow hcas hsc hnext⟩⟩

/-- A statement handler that emits `dg_bar_wrtmp`'s shadow assignments for each `WrTmp`, on the
block `IMark; t1 = Add64(t0, 0x8); PUT(16) = t1` with a 32-byte guest state; and the replacement
of the CAS `t0 = CASle(0x1000 :: 7 -> 9)` whose success the handler has tested into `t1`, run
where memory holds `7` at `0x1000`. -/
theorem dgInstrument_preserves_client_wrtmp_cas :
    (HandlerShadowOnly (fun env sb st => (match st with
      | .wrTmp t _ => (BarCallback.wrtmp t (.const (.f64i 0), .const (.f64i 0))).emit env sb
      | _ => sb, none)) ∧
    PreservesClient (bitsInterp Interp.inertBits) (barToolCall fun _ => 0) 32
      ⟨[.i64, .i64], [.imark, .wrTmp 1 (.binop (.other "Add64" .i64) (.rdTmp 0) (.const (.u64 8))),
        .put 16 (.rdTmp 1)], .rdTmp 1⟩
      (dgInstrument (fun env sb st => (match st with
        | .wrTmp t _ => (BarCallback.wrtmp t (.const (.f64i 0), .const (.f64i 0))).emit env sb
        | _ => sb, none)) 32
        ⟨[.i64, .i64], [.imark, .wrTmp 1 (.binop (.other "Add64" .i64) (.rdTmp 0)
          (.const (.u64 8))), .put 16 (.rdTmp 1)], .rdTmp 1⟩)) ∧
    let c : IRCAS := ⟨none, 0, .const (.u64 0x1000), none, .const (.u64 7), none, .const (.u64 9)⟩
    let s : State Nat BarState := ⟨fun t => if t = 1 then 1 else 0, fun _ => 0,
      writeBytes (fun _ => 0) 0x1000 (leBytes 7 8), barInitialState, none⟩
    c.Replaceable [.i64, .i1] 1 ∧ s.exit = none ∧
      ((bitsInterp Interp.inertBits).isTrue (s.tmps 1) = true ↔
        casSucceeds (bitsInterp Interp.inertBits) [.i64, .i1] s c) ∧
      execStmts (bitsInterp Interp.inertBits) (barToolCall fun _ => 0) [.i64, .i1] s
          ((dgOriginalStatement (some 1) ⟨[.i64, .i1], [], .const (.u64 0)⟩ (.cas c)).stmts.drop 0) =
        execCAS (bitsInterp Interp.inertBits) [.i64, .i1] s c := by
  have hgrow : HandlerShadowOnly (fun env sb st => (match st with
      | .wrTmp t _ => (BarCallback.wrtmp t (.const (.f64i 0), .const (.f64i 0))).emit env sb
      | _ => sb, none)) := fun env sb st hn => by
    cases st <;> first
      | exact Grows.refl sb
      | exact (BarCallback.emit_grows env [] hn (.wrtmp _ _) trivial).imp fun _ h => h.shadowOnly
  have hrep : IRCAS.Replaceable [.i64, .i1] 1
      ⟨none, 0, .const (.u64 0x1000), none, .const (.u64 7), none, .const (.u64 9)⟩ :=
    ⟨rfl, rfl, by decide, trivial, trivial, nofun, rfl, nofun⟩
  have hok : (bitsInterp Interp.inertBits).isTrue 1 = true ↔
      casSucceeds (bitsInterp Interp.inertBits) [.i64, .i1]
        ⟨fun t => if t = 1 then 1 else 0, fun _ => 0, writeBytes (fun _ => 0) 0x1000 (leBytes 7 8),
          barInitialState, none⟩
        ⟨none, 0, .const (.u64 0x1000), none, .const (.u64 7), none, .const (.u64 9)⟩ :=
    iff_of_true rfl ⟨by decide, nofun⟩
  exact ⟨⟨hgrow, ((dgInstrument_preserves_client Interp.inertBits fun _ => 0).2.2.2 32 _ _
    hgrow).2.2 (fun _ _ _ _ _ h => ⟨rfl, rfl, h⟩) (fun _ _ _ _ h => Option.noConfusion h)
    (by decide) (by decide)⟩, hrep, rfl, hok,
    (dgInstrument_preserves_client Interp.inertBits fun _ => 0).2.2.1 [.i64, .i1]
      ⟨[.i64, .i1], [], .const (.u64 0)⟩ _ 1 _ hrep rfl rfl hok⟩

end Derivgrind
