/-
  Settlements of a virtual machine.

  A settlement reads the beneficiary for its reward even where the transaction
  did not use it, and so it is not local: what it noted then depends on what was
  known before. Beside it stands a settlement that leaves such a beneficiary
  alone. That one is local, and the two agree in what they answer and in the
  values that they leave.
-/
import BlockExecution.Proofs.Evm.Engine
import BlockExecution.Proofs.Speculation.Context

namespace BlockExecution.Evm

open BlockExecution.Snapshot

variable {e : Engine} {front : Reading (Except Refusal Returned)} {config : ProcessorConfig}
  {ctx : BlockContext} {t : Transaction} {v : Validation} {view : WorldView} {w w' : Accumulator}
  {run : EngineRun} {r : Returned} {asked : Set Address} {known : Bool}

/-! ## Writing a run back -/

namespace EngineRun

/-- The settlement of a run. -/
def settlement (run : EngineRun) (ctx : BlockContext) (t : Transaction) : Settlement :=
  ⟨run.result.outcome, some (run.payout ctx t).reward⟩

/-- What is left to do of a transaction after its run. -/
def writeBack (run : EngineRun) (config : ProcessorConfig) (ctx : BlockContext) (t : Transaction)
    (known : Bool) : Execution Settlement := do
  run.diff.write config (run.payout ctx t)
  unless (run.payout ctx t).used || known do
    modify (·.forget ctx.beneficiary)
  return run.settlement ctx t

theorem writeBack_of_kept (h : ((run.payout ctx t).used || known) = true) :
    run.writeBack config ctx t known =
      run.diff.write config (run.payout ctx t) >>= fun _ => pure (run.settlement ctx t) := by
  unfold writeBack
  rw [h]
  rfl

theorem writeBack_of_forgotten (h : ((run.payout ctx t).used || known) = false) :
    run.writeBack config ctx t known =
      run.diff.write config (run.payout ctx t) >>= fun _ =>
        modify (·.forget ctx.beneficiary) >>= fun _ => pure (run.settlement ctx t) := by
  unfold writeBack
  rw [h]
  rfl

theorem standsOn_writeBack (run : EngineRun) (config : ProcessorConfig) (t : Transaction)
    (known : Bool) (hw : w.StandsOn view) :
    ((run.writeBack config ctx t known).runOn w).2.StandsOn view := by
  have hwrite : Local (run.diff.write config (run.payout ctx t)).runOn :=
    (StateDiff.confined_write config _ fun d _ => Set.mem_univ _).isLocal
  apply (hwrite.grows w hw.sound).standsOn_bind hw
  intro _ w' hw'
  split
  · exact hw'
  · exact hw'.forget ctx.beneficiary

end EngineRun

/-! ## Settlements of any machine -/

namespace Engine

theorem settle_eq (e : Engine) (config : ProcessorConfig) (ctx : BlockContext) (t : Transaction)
    (v : Validation) :
    e.settle config ctx t v =
      if v.verifySignature && config.verifySignatures && !t.isSignedBySender then
        return .rejected (.evm .invalidSignature)
      else
        get >>= fun w => (e (.of config ctx t v)).execute ctx.blockHash? >>= fun
        | .error refusal => pure (.rejected (.evm (.refused refusal.text)))
        | .ok run => run.writeBack config ctx t (isKnown w ctx.beneficiary) := rfl

theorem runOn_get (w : Accumulator) : (get : Execution Accumulator).runOn w = (.ok w, w) := rfl

theorem standsOn_settle (e : Engine) (config : ProcessorConfig) (ctx : BlockContext)
    (t : Transaction) (v : Validation) (hw : w.StandsOn view) :
    ((e.settle config ctx t v).runOn w).2.StandsOn view := by
  rw [settle_eq]
  split
  · exact hw
  · rw [Execution.runOn_bind_of_ok (runOn_get w)]
    apply (Reading.extends_execute _ _ hw.sound).standsOn_bind hw
    intro answer w₁ hw₁
    cases answer with
    | error refusal => exact hw₁
    | ok run => exact run.standsOn_writeBack config t _ hw₁

/-- A successful transaction owes a reward. -/
theorem rewarded_of_successful {st : Settlement}
    (h : ((e.settle config ctx t v).runOn w).1 = .ok st)
    (hsuccess : st.result.isSuccessful = true) : ∃ reward, st.reward = some reward := by
  -- A refusal is no success.
  have hrefused : ∀ fault, Settlement.rejected fault = st → False := by
    rintro fault rfl
    exact Bool.false_ne_true hsuccess
  rw [settle_eq] at h
  split at h
  · exact (hrefused _ (Except.ok.inj h)).elim
  · obtain ⟨w₀, w₁, -, h⟩ := Execution.ok_of_bind h
    obtain ⟨answer, w₂, -, h⟩ := Execution.ok_of_bind h
    cases answer with
    | error refusal => exact (hrefused _ (Except.ok.inj h)).elim
    | ok run =>
      obtain ⟨_, w₃, -, h⟩ := Execution.ok_of_bind h
      have hanswer : run.settlement ctx t = st := by
        split at h
        · exact Except.ok.inj h
        · obtain ⟨_, w₄, -, h⟩ := Execution.ok_of_bind h
          exact Except.ok.inj h
      exact ⟨_, congrArg Settlement.reward hanswer.symm⟩

end Engine

/-! ## Settlements on known values -/

theorem not_noted_of_not_known {b : Address} (h : isKnown w b = false) :
    ∀ d ∈ w.noted, d.address ≠ b := by
  intro d hd heq
  have htouched : w.tracker.wasTouched b = true := TouchTracker.wasTouched_iff.mpr ⟨d, hd, heq⟩
  unfold isKnown at h
  rw [htouched, Bool.or_true] at h
  cases h

namespace Engine

/-- A transaction that the machine refuses on the values of an accumulator is refused there. -/
theorem runOn_settle_of_refused {refusal : Refusal}
    (hsigned : (v.verifySignature && config.verifySignatures && !t.isSignedBySender) = false)
    (hrefused : (e (.of config ctx t v)).on ctx.blockHash? w.values =
      some (.ok (.error refusal)))
    (hw : w.StandsOn view) (hr : view.Readable) :
    ∃ w', (e.settle config ctx t v).runOn w =
      (.ok (.rejected (.evm (.refused refusal.text))), w') := by
  obtain ⟨w', hrun, -, -⟩ := (Reading.gives_of_on hrefused).run hw.sound (hw.base ▸ hr)
  rw [settle_eq, hsigned, if_neg Bool.false_ne_true, Execution.runOn_bind_of_ok (runOn_get w),
    Execution.runOn_bind_of_ok hrun]
  exact ⟨w', rfl⟩

/-- A transaction that the machine runs on the values of an accumulator leaves there what is written
back of it. A beneficiary that it did not use has to keep its values: what was read of it may be
forgotten again. -/
theorem runOn_settle_of_run {final : Snapshot}
    (hsigned : (v.verifySignature && config.verifySignatures && !t.isSignedBySender) = false)
    (hrun : (e (.of config ctx t v)).on ctx.blockHash? w.values = some (.ok (.ok run)))
    (hwrite : (run.diff.write config (run.payout ctx t)).Gives w.values () final)
    (hunused : (run.payout ctx t).used = false →
      ∀ c : Cell, c.address = ctx.beneficiary → final.AgreeAt w.values c)
    (hw : w.StandsOn view) (hr : view.Readable) :
    ∃ w', (e.settle config ctx t v).runOn w = (.ok (run.settlement ctx t), w') ∧
      w'.values = final := by
  obtain ⟨w₁, hasked, hext, hsame⟩ := (Reading.gives_of_on hrun).run hw.sound (hw.base ▸ hr)
  rw [← hsame] at hwrite
  obtain ⟨w₂, hwritten, hext', rfl⟩ := hwrite.run hext.sound (hext.base ▸ hw.base ▸ hr)
  rw [settle_eq, hsigned, if_neg Bool.false_ne_true, Execution.runOn_bind_of_ok (runOn_get w),
    Execution.runOn_bind_of_ok hasked]
  cases hforgets : (run.payout ctx t).used || isKnown w ctx.beneficiary with
  | true =>
    refine ⟨w₂, ?_, rfl⟩
    dsimp only
    rw [EngineRun.writeBack_of_kept hforgets, Execution.runOn_bind_of_ok hwritten]
    rfl
  | false =>
    obtain ⟨hnot, hunknown⟩ := Bool.or_eq_false_iff.mp hforgets
    refine ⟨w₂.forget ctx.beneficiary, ?_, ?_⟩
    · dsimp only
      rw [EngineRun.writeBack_of_forgotten hforgets, Execution.runOn_bind_of_ok hwritten]
      rfl
    · exact Accumulator.values_forget_eq_self hw.tracked (hext'.base.trans hext.base)
        (hunused hnot) (not_noted_of_not_known hunknown)

end Engine

/-! ## A settlement that leaves an unused beneficiary alone -/

/-- The settlement in which a beneficiary is not read for its reward. -/
def bareSettle (front : Reading (Except Refusal Returned)) (config : ProcessorConfig)
    (ctx : BlockContext) (t : Transaction) (v : Validation) : Execution Settlement :=
  if v.verifySignature && config.verifySignatures && !t.isSignedBySender then
    return .rejected (.evm .invalidSignature)
  else
    front.execute ctx.blockHash? >>= fun
    | .error refusal => pure (.rejected (.evm (.refused refusal.text)))
    | .ok r => (r.run none).diff.write config ((r.run none).payout ctx t) >>= fun _ =>
        pure ((r.run none).settlement ctx t)

theorem Engine.IsFront.settle_eq (h : e.IsFront (.of config ctx t v) front) :
    e.settle config ctx t v =
      if v.verifySignature && config.verifySignatures && !t.isSignedBySender then
        return .rejected (.evm .invalidSignature)
      else
        get >>= fun w => front.execute ctx.blockHash? >>= fun
        | .error refusal => pure (.rejected (.evm (.refused refusal.text)))
        | .ok r => (r.pay ctx.beneficiary).execute ctx.blockHash? >>= fun run =>
            run.writeBack config ctx t (isKnown w ctx.beneficiary) := by
  -- Both sides do the same one after the other, and only the brackets are elsewhere.
  rw [Engine.settle_eq, h.splits, Reading.execute_bind]
  split
  · rfl
  · apply bind_congr
    intro w
    rw [bind_assoc]
    apply bind_congr
    intro answer
    cases answer with
    | error refusal => rfl
    | ok r =>
      unfold payReward
      dsimp only
      rw [Reading.execute_bind, bind_assoc]
      rfl

theorem Engine.IsFront.local_bareSettle {i : Input} (h : e.IsFront i front)
    (config : ProcessorConfig) (ctx : BlockContext) (t : Transaction) (v : Validation) :
    Local (bareSettle front config ctx t v).runOn := by
  unfold bareSettle
  split
  · exact Local.executionPure _
  · apply Local.executionBind (h.tracks.isLocal _)
    intro answer
    cases answer with
    | error refusal => exact Local.executionPure _
    | ok r =>
      have hwrite : ((r.run none).diff.write config ((r.run none).payout ctx t)).Confined
          Set.univ := StateDiff.confined_write config _ fun d _ => Set.mem_univ d.address
      exact Local.executionBind hwrite.isLocal fun _ => Local.executionPure _

/-! ## The two settlements agree -/

namespace Returned

/-- Where the beneficiary is loaded, it is not read again and what is written back stays. -/
theorem pay_of_loaded (h : r.Regular ctx.beneficiary asked) (hloaded : ctx.beneficiary ∈ r.loaded)
    (config : ProcessorConfig) (known : Bool) :
    ((r.pay ctx.beneficiary).execute ctx.blockHash? >>= fun run =>
        run.writeBack config ctx t known) =
      (r.run none).diff.write config ((r.run none).payout ctx t) >>= fun _ =>
        pure ((r.run none).settlement ctx t) := by
  have hused : ((r.run none).payout ctx t).used = true := by
    rw [payout_run h, List.contains_eq_mem, decide_eq_true hloaded]
  unfold pay
  rw [if_pos hloaded]
  exact EngineRun.writeBack_of_kept (by rw [hused, Bool.true_or])

/-- Reading a beneficiary that is not loaded and forgetting it again, unless it was known, leaves
the values as if it had been left alone. -/
theorem runOn_pay_of_not_loaded (h : r.Regular ctx.beneficiary asked)
    (hloaded : ctx.beneficiary ∉ r.loaded) (config : ProcessorConfig) (hw : w.StandsOn view)
    (hr : view.Readable)
    (hunknown : known = false → ∀ d ∈ w.noted, d.address ≠ ctx.beneficiary) :
    ∃ w₁ w₂, ((r.run none).diff.write config ((r.run none).payout ctx t)).runOn w =
        (.ok (), w₁) ∧
      ((r.pay ctx.beneficiary).execute ctx.blockHash? >>= fun run =>
          run.writeBack config ctx t known).runOn w =
        (.ok ((r.run none).settlement ctx t), w₂) ∧
      w₂.values = w₁.values ∧ (known = false → w₂.noted = w₁.noted) := by
  have hread : w.base.Readable := hw.base ▸ hr
  obtain ⟨w', hasked, -, hacc⟩ :=
    (Execution.isAccess_account ctx.beneficiary).answers hw.sound hread
  generalize w.values.account ctx.beneficiary = found at hasked
  have hpaid : ((r.pay ctx.beneficiary).execute ctx.blockHash?).runOn w =
      (.ok (r.run found), w') := by
    unfold pay
    rw [if_neg hloaded, Reading.execute_bind]
    exact Execution.runOn_bind_of_ok hasked
  have hwrite := write_run (t := t) h hloaded config
  have hunused : ((r.run found).payout ctx t).used = false := by
    rw [payout_run h, List.contains_eq_mem, decide_eq_false hloaded]
  have hsettled : (r.run found).settlement ctx t = (r.run none).settlement ctx t := by
    rw [EngineRun.settlement, EngineRun.settlement, payout_run h, payout_run h]
    rfl
  have hconfined : ((r.run none).diff.write config
      ((r.run none).payout ctx t)).Confined {a | a ≠ ctx.beneficiary} := by
    rw [hwrite]
    exact StateDiff.confined_write config _ fun d hd => bne_iff_ne.mp (List.mem_filter.mp hd).2
  -- The read changes no value, so what is written after it is what is written without it.
  obtain ⟨⟨⟩, w₁, w₂, hrun₁, hrun₂, hext, hnoted₁, hbase, hvalues, hnoted₂⟩ :=
    hconfined.run_after_read hw.sound hread hacc
  rw [hwrite none, ← hwrite found] at hrun₂
  rw [Execution.runOn_bind_of_ok hpaid, ← hsettled]
  cases known with
  | true =>
    rw [EngineRun.writeBack_of_kept (Bool.or_true _), Execution.runOn_bind_of_ok hrun₂]
    exact ⟨w₁, w₂, hrun₁, rfl, hvalues, fun hfalse => by cases hfalse⟩
  | false =>
    have hoff : ∀ d ∈ w₁.noted, d.address ≠ ctx.beneficiary := by
      intro d hd
      rcases hnoted₁ hd with hbefore | hwritten
      · exact hunknown rfl d hbefore
      · exact hwritten
    rw [EngineRun.writeBack_of_forgotten ((Bool.or_false _).trans hunused),
      Execution.runOn_bind_of_ok hrun₂]
    refine ⟨w₁, w₂.forget ctx.beneficiary, hrun₁, rfl, ?_, ?_⟩
    · apply Accumulator.values_forget_of_not_noted (hext.standsOn hw).tracked hbase _ hoff
      intro d _
      rw [hvalues]
      exact AgreeAt.refl _ d
    · -- The only note that is dropped is that of the read itself.
      intro _
      rw [Accumulator.noted_forget, hnoted₂]
      ext d
      constructor
      · rintro ⟨rfl | hd, hne⟩
        · exact absurd rfl hne
        · exact hd
      · exact fun hd => ⟨.inr hd, hoff d hd⟩

end Returned

/-- Both settlements answer the same and leave the same values. On an accumulator that does not know
the beneficiary they also note the same. -/
theorem Engine.IsFront.runOn_settle (h : e.IsFront (.of config ctx t v) front)
    (hw : w.StandsOn view) (hr : view.Readable) :
    ∃ w', (e.settle config ctx t v).runOn w =
        (((bareSettle front config ctx t v).runOn w).1, w') ∧
      w'.values = ((bareSettle front config ctx t v).runOn w).2.values ∧
      (isKnown w ctx.beneficiary = false →
        w'.noted = ((bareSettle front config ctx t v).runOn w).2.noted) := by
  have hread : w.base.Readable := hw.base ▸ hr
  obtain ⟨asked, -, hregular, hasked⟩ := h.tracks.run ctx.blockHash? hw.sound hread
  have hext := Reading.extends_execute ctx.blockHash? front hw.sound
  rw [← Reading.runOn_execute] at hregular hasked
  rw [h.settle_eq]
  unfold bareSettle
  split
  · exact ⟨w, rfl, rfl, fun _ => rfl⟩
  · rw [Execution.runOn_bind_of_ok (runOn_get w), Execution.runOn_bind, Execution.runOn_bind]
    rcases hfront : (front.execute ctx.blockHash?).runOn w with ⟨answer, w₁⟩
    rw [hfront] at hregular hasked hext
    have hw₁ := hext.standsOn hw
    rcases answer with error | refusal | r
    · exact ⟨w₁, rfl, rfl, fun _ => rfl⟩
    · exact ⟨w₁, rfl, rfl, fun _ => rfl⟩
    · have hr' : r.Regular ctx.beneficiary asked := hregular _ rfl r rfl
      dsimp only
      by_cases hloaded : ctx.beneficiary ∈ r.loaded
      · rw [r.pay_of_loaded hr' hloaded]
        exact ⟨_, rfl, rfl, fun _ => rfl⟩
      · -- Nothing of the beneficiary was noted before, and the transaction did not ask about it.
        have hunknown : isKnown w ctx.beneficiary = false →
            ∀ d ∈ w₁.noted, d.address ≠ ctx.beneficiary := by
          intro hnot d hd heq
          rcases hasked hd with hbefore | hafter
          · exact not_noted_of_not_known hnot d hbefore heq
          · exact hr'.not_mem_asked hloaded (heq ▸ hafter)
        obtain ⟨w₂, w₃, hbare, hfull, hvalues, hnoted⟩ :=
          r.runOn_pay_of_not_loaded hr' hloaded config hw₁ hr hunknown
        rw [Execution.runOn_bind_of_ok hbare]
        exact ⟨w₃, hfull, hvalues, hnoted⟩

end BlockExecution.Evm
