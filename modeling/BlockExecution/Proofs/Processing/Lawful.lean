/-
  Lawful processors.

  Block processing and speculation need three things of a processor, whatever it
  runs: up to the reward it keeps the accumulator in order, it depends on no more
  than a footprint, which on a fresh accumulator is what it notes, and a
  successful transaction owes a reward.
-/
import BlockExecution.Proofs.State.Execution
import BlockExecution.Proofs.State.Import
import BlockExecution.Processing.Processor

namespace BlockExecution

open BlockExecution.Snapshot

/-! ## Accumulators in order -/

/-- A sound and tracked accumulator over a view. -/
structure Accumulator.StandsOn (w : Accumulator) (view : WorldView) : Prop where
  base : w.base = view
  sound : w.Sound
  tracked : w.Tracked

namespace Accumulator

variable {w w' source : Accumulator} {view : WorldView}

theorem standsOn_ofView (view : WorldView) : (ofView view).StandsOn view :=
  ⟨rfl, sound_ofView view, tracked_ofView view⟩

theorem Extends.standsOn (h : w.Extends w') (hw : w.StandsOn view) : w'.StandsOn view :=
  ⟨h.base.trans hw.base, h.sound, h.tracked hw.tracked⟩

theorem StandsOn.commit (hw : w.StandsOn view) : w.commit.StandsOn view :=
  ⟨hw.base, sound_commit hw.sound, tracked_commit hw.tracked⟩

theorem StandsOn.forget (hw : w.StandsOn view) (a : Address) : (w.forget a).StandsOn view :=
  ⟨hw.base, sound_forget hw.sound a, tracked_forget hw.tracked a⟩

theorem StandsOn.importChanges (hw : w.StandsOn view) (hs : source.StandsOn view) :
    (w.importChanges source).StandsOn view := by
  have hbase : source.base = w.base := hs.base.trans hw.base.symm
  exact ⟨hw.base, sound_importChanges hw.sound hs.sound hbase,
    tracked_importChanges hw.tracked hs.sound hbase⟩

theorem StandsOn.importPrior (hw : w.StandsOn view) (hs : source.StandsOn view) :
    (w.importPrior source).StandsOn view := by
  have hbase : source.base = w.base := hs.base.trans hw.base.symm
  exact ⟨hw.base, sound_importPrior hw.sound hs.sound hbase,
    tracked_importPrior hw.tracked hs.sound hbase⟩

end Accumulator

/-- What comes after a computation that leaves an accumulator in order. -/
theorem Accumulator.Extends.standsOn_bind {α β : Type} {x : Execution α} {f : α → Execution β}
    {w : Accumulator} {view : WorldView} (hx : w.Extends (x.runOn w).2) (hw : w.StandsOn view)
    (hf : ∀ a w', w'.StandsOn view → ((f a).runOn w').2.StandsOn view) :
    ((x >>= f).runOn w).2.StandsOn view := by
  have hafter := hx.standsOn hw
  rw [Execution.runOn_bind]
  rcases hrun : x.runOn w with ⟨answer, w'⟩
  rw [hrun] at hafter
  cases answer with
  | error e => exact hafter
  | ok a => exact hf a w' hafter

/-! ## Lawful processors -/

/-- A processor that keeps accumulators in order up to the reward. -/
structure Processor.KeepsOrder (p : Processor) : Prop where
  standsOn : ∀ {view : WorldView} {w : Accumulator} (ctx : BlockContext) (t : Transaction)
    (v : Validation), w.StandsOn view → ((p.settle ctx t v).runOn w).2.StandsOn view

/-- What block processing needs of a processor. -/
structure Processor.Lawful (p : Processor) : Prop extends p.KeepsOrder where
  footprint : ∀ {view : WorldView} {s : Accumulator} (ctx : BlockContext) (t : Transaction)
    (v : Validation), s.StandsOn view → view.Readable → ∃ region : Set Cell,
      (s = Accumulator.ofView view → ((p.settle ctx t v).runOn s).2.noted = region) ∧
      ∀ {view' : WorldView} {b : Accumulator}, b.StandsOn view' → view'.Readable →
        AgreeOn region b.values s.values → Mirrors (p.settle ctx t v).runOn s region b
  rewarded : ∀ {view : WorldView} {w : Accumulator} {ctx : BlockContext} {t : Transaction}
    {v : Validation} {st : Settlement}, w.StandsOn view → view.Readable →
      ((p.settle ctx t v).runOn w).1 = .ok st → st.result.isSuccessful = true →
        ∃ reward, st.reward = some reward

/-- A processor whose settlement is local is lawful. -/
theorem Processor.Lawful.of_local {p : Processor}
    (hlocal : ∀ ctx t v, Local (p.settle ctx t v).runOn)
    (hrewarded : ∀ {view : WorldView} {w : Accumulator} {ctx : BlockContext} {t : Transaction}
      {v : Validation} {st : Settlement}, w.StandsOn view → view.Readable →
        ((p.settle ctx t v).runOn w).1 = .ok st → st.result.isSuccessful = true →
          ∃ reward, st.reward = some reward) :
    p.Lawful where
  standsOn ctx t v hw := ((hlocal ctx t v).grows _ hw.sound).standsOn hw
  footprint {view s} ctx t v hs hr := by
    have hreadable : s.base.Readable := hs.base ▸ hr
    obtain ⟨region, hfoot⟩ := (hlocal ctx t v).footprint s hs.sound hreadable
    refine ⟨region, ?_, ?_⟩
    · rintro rfl
      have hnoted := (hfoot _ hs.sound hreadable (AgreeOn.refl _ _)).noted
      rw [hnoted, Accumulator.noted_ofView, Set.empty_union]
    · intro view' b hb hbr hagree
      exact (hfoot b hb.sound (hb.base ▸ hbr) hagree).toMirrors
  rewarded := hrewarded

namespace Processor

variable {p : Processor} {view : WorldView} {w q b : Accumulator}

theorem KeepsOrder.standsOn_of_settled (hp : p.KeepsOrder) {ctx : BlockContext} {t : Transaction}
    {v : Validation} {answer : Except StateError Settlement} {settled : Accumulator}
    (hw : w.StandsOn view) (h : (p.settle ctx t v).runOn w = (answer, settled)) :
    settled.StandsOn view := by
  have hstands := hp.standsOn ctx t v hw
  rwa [h] at hstands

/-! ## Reward -/

/-- The beneficiary after a reward was credited. -/
def credited (p : Processor) (reward : Word) (found : Option Account) : Option Account :=
  if reward != 0 || !p.config.clearEmptyAccounts then
    let account := found.getD {}
    some { account with balance := satAdd account.balance reward }
  else found

theorem runOn_creditReward_of_sound (hs : w.Sound) (hr : w.base.Readable) (beneficiary : Address)
    (reward : Word) :
    ∃ w', (p.creditReward beneficiary reward).runOn w = (.ok (), w') ∧ w.Extends w' ∧
      w'.values = w.values.setAccount beneficiary
        (p.credited reward (w.values.account beneficiary)) ∧
      w'.noted ⊆ insert (.account beneficiary) w.noted := by
  unfold creditReward credited
  split
  · have hcredit := Execution.isAccess_writeAccount beneficiary fun current => some
      { current.getD {} with balance := satAdd (current.getD {}).balance reward }
    obtain ⟨w', hrun, hext, hacc⟩ := hcredit.answers hs hr
    exact ⟨w', hrun, hext, hacc.values, hacc.noted.subset⟩
  · refine ⟨w, rfl, .refl hs, ?_, Set.subset_insert _ _⟩
    rw [setAccount_eq_self]

theorem runOn_creditReward (hw : w.StandsOn view) (hr : view.Readable) (beneficiary : Address)
    (reward : Word) :
    ∃ w', (p.creditReward beneficiary reward).runOn w = (.ok (), w') ∧ w.Extends w' ∧
      w'.values = w.values.setAccount beneficiary
        (p.credited reward (w.values.account beneficiary)) ∧
      w'.noted ⊆ insert (.account beneficiary) w.noted :=
  runOn_creditReward_of_sound hw.sound (hw.base ▸ hr) beneficiary reward

theorem runOn_finish_of_none (beneficiary : Address) (result : ProcessingResult)
    (w : Accumulator) : (p.finish beneficiary ⟨result, none⟩).runOn w = (.ok result, w) := rfl

theorem runOn_finish_of_some (hw : w.StandsOn view) (hr : view.Readable) (beneficiary : Address)
    (result : ProcessingResult) (reward : Word) :
    ∃ w', (p.finish beneficiary ⟨result, some reward⟩).runOn w = (.ok result, w') ∧
      w.Extends w' ∧
      w'.values = w.values.setAccount beneficiary
        (p.credited reward (w.values.account beneficiary)) ∧
      w'.noted ⊆ insert (.account beneficiary) w.noted := by
  obtain ⟨w', hrun, hext, hvalues, hnoted⟩ :=
    runOn_creditReward (p := p) hw hr beneficiary reward
  refine ⟨w', ?_, hext, hvalues, hnoted⟩
  exact (Execution.runOn_bind_of_ok hrun).trans rfl

/-! ## Whole transactions -/

theorem KeepsOrder.standsOn_process (hp : p.KeepsOrder) (ctx : BlockContext) (t : Transaction)
    (v : Validation) (hw : w.StandsOn view) (hr : view.Readable) :
    ((p.process ctx t v).runOn w).2.StandsOn view := by
  rw [process, Execution.runOn_bind]
  rcases hrun : (p.settle ctx t v).runOn w with ⟨answer, w₁⟩
  have hsettled := hp.standsOn_of_settled hw hrun
  cases answer with
  | error e => exact hsettled
  | ok st =>
    obtain ⟨result, reward⟩ := st
    cases reward with
    | none => exact hsettled
    | some reward =>
      obtain ⟨w₂, hfinish, hext, -, -⟩ :=
        runOn_finish_of_some (p := p) hsettled hr ctx.beneficiary result reward
      simp only [hfinish]
      exact hext.standsOn hsettled

/-- A transaction does the same on accumulators of the same values, whatever views they stand on
and whatever they have loaded or noted. -/
theorem Lawful.process_congr {view' : WorldView} (hp : p.Lawful) (ctx : BlockContext)
    (t : Transaction) (v : Validation) (hq : q.StandsOn view) (hr : view.Readable)
    (hb : b.StandsOn view') (hr' : view'.Readable) (hvalues : b.values = q.values) :
    ((p.process ctx t v).runOn b).1 = ((p.process ctx t v).runOn q).1 ∧
      ((p.process ctx t v).runOn b).2.values = ((p.process ctx t v).runOn q).2.values := by
  obtain ⟨region, -, hmirror⟩ := hp.footprint ctx t v hq hr
  have hmine := hmirror hq hr (AgreeOn.refl _ _)
  have hother := hmirror hb hr' (hvalues ▸ AgreeOn.refl _ _)
  -- On the footprint the runs leave the same, elsewhere they leave what they found.
  have hsettled : ((p.settle ctx t v).runOn b).2.values =
      ((p.settle ctx t v).runOn q).2.values := by
    apply AgreeOn.eq hother.within
    exact (hother.outside.trans (hvalues ▸ AgreeOn.refl _ _)).trans hmine.outside.symm
  have hanswer := hother.answer
  rw [process, Execution.runOn_bind, Execution.runOn_bind]
  rcases hqrun : (p.settle ctx t v).runOn q with ⟨answer, q₁⟩
  rcases hbrun : (p.settle ctx t v).runOn b with ⟨answer', b₁⟩
  have hqs := hp.standsOn_of_settled hq hqrun
  have hbs := hp.standsOn_of_settled hb hbrun
  rw [hqrun, hbrun] at hanswer hsettled
  obtain rfl : answer' = answer := hanswer
  cases answer' with
  | error e => exact ⟨rfl, hsettled⟩
  | ok st =>
    obtain ⟨result, reward⟩ := st
    cases reward with
    | none => exact ⟨rfl, hsettled⟩
    | some reward =>
      obtain ⟨q₂, hqfinish, -, hqvalues, -⟩ :=
        runOn_finish_of_some (p := p) hqs hr ctx.beneficiary result reward
      obtain ⟨b₂, hbfinish, -, hbvalues, -⟩ :=
        runOn_finish_of_some (p := p) hbs hr' ctx.beneficiary result reward
      simp only [hqfinish, hbfinish, true_and]
      have hboth : b₁.values = q₁.values := hsettled
      rw [hbvalues, hqvalues, hboth]

end Processor

end BlockExecution
