/-
  Merging a speculative execution against replaying it.

  A context that stands used nothing that the block has changed, so a replay
  would settle as the speculation did. Merged and replayed block then have the
  same value everywhere but possibly at the beneficiary, and there unless the
  context nets: the transaction used the beneficiary, together with the reward
  it left there what it found, and the reward alone would have changed that.
-/
import BlockExecution.Proofs.Speculation.Context
import BlockExecution.Proofs.State.NetChange
import BlockExecution.Speculation.Reconcile

namespace BlockExecution

open BlockExecution.Snapshot

/-! ## Collisions -/

namespace Accumulator

variable {w : Accumulator}

theorem modifiesAccount_iff (hw : w.Sound) (a : Address) :
    w.modifiesAccount a = true ↔ .account a ∈ w.changed :=
  modifies_iff (c := .account a) hw

theorem modifiesSlot_iff (hw : w.Sound) (k : StorageKey) :
    w.modifiesSlot k = true ↔ .slot k ∈ w.changed :=
  modifies_iff (c := .slot k) hw

end Accumulator

namespace SpeculativeContext

variable {c : SpeculativeContext} {t : Transaction} {block : Accumulator}

theorem collisionAt_eq_none_iff (hb : block.Sound) (a : Address) :
    c.collisionAt block a = none ↔
      .account a ∉ block.changed ∧
        ∀ slot, .slot ⟨a, slot⟩ ∈ c.world.noted → .slot ⟨a, slot⟩ ∉ block.changed := by
  unfold collisionAt
  rw [← Accumulator.modifiesAccount_iff hb]
  split
  · rename_i hmodified
    exact iff_of_false (fun h => by cases h) fun h => h.1 hmodified
  · rename_i hmodified
    rw [Option.map_eq_none_iff, List.find?_eq_none]
    simp only [List.mem_map, TouchTracker.mem_touchedSlots, forall_exists_index, and_imp,
      forall_apply_eq_imp_iff₂, Accumulator.modifiesSlot_iff hb]
    exact ⟨fun h => ⟨hmodified, h⟩, fun h => h.2⟩

/-- A context collides with nothing exactly when the block has changed nothing that counts. -/
theorem collision_eq_none_iff (hb : block.Sound) (beneficiary : Address) :
    c.collision t beneficiary block = none ↔
      ∀ a ∈ t.touchedAddresses c.world.tracker,
        (a = beneficiary → c.beneficiaryTouched = true) →
          .account a ∉ block.changed ∧
            ∀ slot, .slot ⟨a, slot⟩ ∈ c.world.noted → .slot ⟨a, slot⟩ ∉ block.changed := by
  unfold collision
  rw [List.findSome?_eq_none_iff]
  apply forall₂_congr
  intro a _
  by_cases hskip : a = beneficiary ∧ (!c.beneficiaryTouched) = true
  · rw [if_pos hskip]
    have huntouched : ¬ c.beneficiaryTouched = true := by simpa using hskip.2
    exact iff_of_true rfl fun h => absurd (h hskip.1) huntouched
  · rw [if_neg hskip, collisionAt_eq_none_iff hb]
    have hcounts : a = beneficiary → c.beneficiaryTouched = true := by
      intro ha
      by_contra hnot
      exact hskip ⟨ha, by simpa using hnot⟩
    exact ⟨fun h _ => h, fun h => h hcounts⟩

theorem stands_iff (hb : block.Sound) (beneficiary : Address) :
    c.stands t beneficiary block = true ↔
      c.result.isSuccessful = true ∧
        ∀ a ∈ t.touchedAddresses c.world.tracker,
          (a = beneficiary → c.beneficiaryTouched = true) →
            .account a ∉ block.changed ∧
              ∀ slot, .slot ⟨a, slot⟩ ∈ c.world.noted → .slot ⟨a, slot⟩ ∉ block.changed := by
  rw [stands, Bool.and_eq_true, Option.isNone_iff_eq_none, collision_eq_none_iff hb, and_comm]

/-- The transaction itself used the beneficiary, what it left there comes to nothing together with
the reward, and the reward alone would not. -/
def Nets (c : SpeculativeContext) (p : Processor) (beneficiary : Address) : Prop :=
  c.beneficiaryTouched = true ∧ .account beneficiary ∉ c.world.changed ∧
    p.credited c.reward (c.world.base.values.account beneficiary) ≠
      c.world.base.values.account beneficiary

/-! ## Reconciling without merging -/

theorem runOn_reconcile_none (p : Processor) (beneficiary : Address) (t : Transaction)
    (block : Accumulator) :
    (p.reconcile beneficiary t none).runOn block = (.ok .missing, block) := rfl

theorem runOn_reconcile_of_not_stands (p : Processor) {beneficiary : Address}
    (h : ¬ c.stands t beneficiary block = true) :
    (p.reconcile beneficiary t (some c)).runOn block =
      (.ok .discarded, block.importPrior c.world) := by
  unfold Processor.reconcile
  have hget : (get : Execution Accumulator).runOn block = (.ok block, block) := rfl
  rw [Execution.runOn_bind_of_ok hget, if_neg h]
  rfl

/-! ## Merging -/

/-- A context that stands is merged: its reward is credited, then its changes are imported. -/
theorem runOn_reconcile_of_stands (p : Processor) {beneficiary : Address} (hs : block.Sound)
    (hr : block.base.Readable) (h : c.stands t beneficiary block = true) :
    ∃ credited : Accumulator,
      (p.reconcile beneficiary t (some c)).runOn block =
        (.ok (.merged { c.result with inParallel := true }), credited.importChanges c.world) ∧
      block.Extends credited ∧
      credited.values = block.values.setAccount beneficiary
        (p.credited c.reward (block.values.account beneficiary)) := by
  obtain ⟨credited, hcredit, hext, hvalues, -⟩ :=
    Processor.runOn_creditReward_of_sound (p := p) hs hr beneficiary c.reward
  refine ⟨credited, ?_, hext, hvalues⟩
  unfold Processor.reconcile
  have hget : (get : Execution Accumulator).runOn block = (.ok block, block) := rfl
  rw [Execution.runOn_bind_of_ok hget, if_pos h, Execution.runOn_bind_of_ok hcredit]
  rfl

/-! ## Replaying what was merged -/

namespace Rewarded

variable {p : Processor} {ctx : BlockContext} {view : WorldView} {result : ProcessingResult}
  {reward : Word} {settled q b : Accumulator}

theorem standsOn_settled (hc : c.Rewarded p ctx t view result reward settled) (hp : p.Lawful) :
    settled.StandsOn view :=
  hp.standsOn_of_settled (Accumulator.standsOn_ofView view) hc.run

theorem touched_iff (hc : c.Rewarded p ctx t view result reward settled) :
    c.beneficiaryTouched = true ↔ ctx.beneficiary ∈ t.touchedAddresses settled.tracker := by
  rw [hc.touched, Transaction.touches_iff]

theorem touchedAddresses_subset (hc : c.Rewarded p ctx t view result reward settled)
    {a : Address} (h : a ∈ t.touchedAddresses settled.tracker) :
    a ∈ t.touchedAddresses c.world.tracker := by
  rw [Transaction.mem_touchedAddresses] at h ⊢
  rcases h with hnamed | ⟨d, hd, hda⟩
  · exact .inl hnamed
  · exact .inr ⟨d, hc.noted hd, hda⟩

/-- A cell that the transaction noted counts for collisions. -/
theorem counts (hc : c.Rewarded p ctx t view result reward settled) {d : Cell}
    (hd : d ∈ settled.noted) :
    d.address ∈ t.touchedAddresses c.world.tracker ∧
      (d.address = ctx.beneficiary → c.beneficiaryTouched = true) := by
  have hmem : d.address ∈ t.touchedAddresses settled.tracker :=
    Transaction.mem_touchedAddresses.mpr (.inr ⟨d, hd, rfl⟩)
  exact ⟨hc.touchedAddresses_subset hmem, fun heq => hc.touched_iff.mpr (heq ▸ hmem)⟩

/-- The block has changed nothing that the transaction noted. -/
theorem unchanged_of_stands (hc : c.Rewarded p ctx t view result reward settled)
    (hb : block.Sound) (hstands : c.stands t ctx.beneficiary block = true) {d : Cell}
    (hd : d ∈ settled.noted) : d ∉ block.changed := by
  obtain ⟨hmem, hcounts⟩ := hc.counts hd
  obtain ⟨haccount, hslots⟩ := ((stands_iff hb _).mp hstands).2 d.address hmem hcounts
  cases d with
  | account a => exact haccount
  | slot k => exact hslots k.slot (hc.noted hd)

/-- The block has not changed a beneficiary that the transaction touched. -/
theorem beneficiary_unchanged_of_stands (hc : c.Rewarded p ctx t view result reward settled)
    (hb : block.Sound) (hstands : c.stands t ctx.beneficiary block = true)
    (htouched : c.beneficiaryTouched = true) : .account ctx.beneficiary ∉ block.changed :=
  (((stands_iff hb _).mp hstands).2 ctx.beneficiary
    (hc.touchedAddresses_subset (hc.touched_iff.mp htouched)) fun _ => htouched).1

/-- Off the beneficiary, a context has the values of the settlement. -/
theorem values_of_ne (hc : c.Rewarded p ctx t view result reward settled) {d : Cell}
    (hd : d ≠ .account ctx.beneficiary) : c.world.values.AgreeAt settled.values d := by
  by_cases htouched : c.beneficiaryTouched = true
  · rw [hc.valuesOfTouched htouched]
    exact agreeAt_setAccount hd _ _
  · rw [hc.valuesOfUntouched htouched]
    exact AgreeAt.refl _ d

/-- A replay on an accumulator that has the values of the view wherever the transaction looks. -/
theorem replay (hc : c.Rewarded p ctx t view result reward settled) (hp : p.Lawful)
    (hr : view.Readable) (hq : q.StandsOn view)
    (hclean : AgreeOn settled.noted q.values view.values) :
    ∃ (between : Snapshot) (q' : Accumulator),
      (p.process ctx t Validation.full).runOn q = (.ok result, q') ∧
      AgreeOn settled.noted between settled.values ∧
      AgreeOn settled.notedᶜ between q.values ∧
      q'.values = between.setAccount ctx.beneficiary
        (p.credited reward (between.account ctx.beneficiary)) := by
  obtain ⟨region, hnoted, hmirror⟩ :=
    hp.footprint ctx t Validation.full (Accumulator.standsOn_ofView view) hr
  have hregion : settled.noted = region := by
    rw [← hnoted rfl, hc.run]
  -- A transaction looks only at what it notes, so on `q` it does what it does on the view.
  have hsame := hmirror hq hr (hregion ▸ hclean)
  rw [← hregion] at hsame
  have hanswer : ((p.settle ctx t Validation.full).runOn q).1 = .ok ⟨result, some reward⟩ := by
    rw [hsame.answer, hc.run]
  have hwithin := hsame.within
  have houtside := hsame.outside
  rcases hrun : (p.settle ctx t Validation.full).runOn q with ⟨answer, q₁⟩
  have hq₁ := hp.standsOn_of_settled hq hrun
  rw [hrun] at hanswer hwithin houtside
  rw [hc.run] at hwithin
  obtain rfl : answer = .ok ⟨result, some reward⟩ := hanswer
  obtain ⟨q', hfinish, -, hvalues, -⟩ :=
    Processor.runOn_finish_of_some (p := p) hq₁ hr ctx.beneficiary result reward
  refine ⟨q₁.values, q', ?_, hwithin, houtside, hvalues⟩
  rw [Processor.process, Execution.runOn_bind_of_ok hrun, hfinish]

/-- Merging on an accumulator. -/
theorem runOn_reconcile (hc : c.Rewarded p ctx t view result reward settled)
    (hr : view.Readable) (hb : b.StandsOn view)
    (hstands : c.stands t ctx.beneficiary b = true) :
    ∃ credited : Accumulator,
      (p.reconcile ctx.beneficiary t (some c)).runOn b =
        (.ok (.merged { result with inParallel := true }), credited.importChanges c.world) ∧
      credited.StandsOn view ∧
      credited.values = b.values.setAccount ctx.beneficiary
        (p.credited reward (b.values.account ctx.beneficiary)) := by
  obtain ⟨credited, hrun, hext, hvalues⟩ :=
    runOn_reconcile_of_stands p hb.sound (hb.base ▸ hr) hstands
  have hresult : c.result = result := hc.result
  rw [hresult] at hrun
  rw [hc.owed] at hvalues
  exact ⟨credited, hrun, hext.standsOn hb, hvalues⟩

/-! ### Merging and replaying compared

`before` are the values that both start from, `between` those of the replay before its reward, and
`credited` is the accumulator with the reward, into which the context is merged. -/

variable {before between : Snapshot} {credited : Accumulator}

/-- Off the beneficiary a merge leaves what a replay leaves. -/
theorem agreeAt_merged_of_ne (hc : c.Rewarded p ctx t view result reward settled)
    (hbase : c.world.base = credited.base) {d : Cell} (hd : d ≠ .account ctx.beneficiary)
    (hcredited : credited.values.AgreeAt before d)
    (hclean : AgreeOn settled.noted before view.values)
    (hin : AgreeOn settled.noted between settled.values)
    (hout : AgreeOn settled.notedᶜ between before) :
    (credited.importChanges c.world).values.AgreeAt between d := by
  by_cases hchanged : d ∈ c.world.changed
  · -- What the transaction changed was noted before the reward, so a replay leaves it too.
    have hnoted : d ∈ settled.noted :=
      (hc.notedOnly (hc.standsOn.tracked hchanged)).resolve_left hd
    have hmerged := Accumulator.values_importChanges_of_changed (w := credited)
      hc.standsOn.sound hchanged
    exact (hmerged.trans (hc.values_of_ne hd)).trans (hin d hnoted).symm
  · have hmerged := Accumulator.values_importChanges_of_not_changed hc.standsOn.sound
      hbase hchanged
    refine (hmerged.trans hcredited).trans ?_
    by_cases hnoted : d ∈ settled.noted
    · -- It was noted but not changed: all of them have the value of the view.
      have hview : c.world.values.AgreeAt view.values d := by
        rw [← hc.standsOn.base]
        exact Accumulator.agreeAt_base_of_not_changed hchanged
      have hleft : between.AgreeAt view.values d :=
        ((hin d hnoted).trans (hc.values_of_ne hd).symm).trans hview
      exact (hclean d hnoted).trans hleft.symm
    · exact (hout d hnoted).symm

/-- A beneficiary that the transaction touched: merging gives it what a replay does, unless the
context nets. -/
theorem account_merged_of_touched (hc : c.Rewarded p ctx t view result reward settled)
    (hp : p.Lawful) (hbase : c.world.base = credited.base) (htouched : c.beneficiaryTouched = true)
    (hcredited : credited.values.account ctx.beneficiary =
      p.credited reward (before.account ctx.beneficiary))
    (hclean : before.account ctx.beneficiary = view.values.account ctx.beneficiary)
    (hin : AgreeOn settled.noted between settled.values)
    (hout : AgreeOn settled.notedᶜ between before) :
    (credited.importChanges c.world).values.account ctx.beneficiary =
        p.credited reward (between.account ctx.beneficiary) ↔ ¬ c.Nets p ctx.beneficiary := by
  have hsettled := hc.standsOn_settled hp
  have hbetween : between.account ctx.beneficiary =
      settled.values.account ctx.beneficiary := by
    by_cases hnoted : .account ctx.beneficiary ∈ settled.noted
    · exact hin _ hnoted
    · -- The beneficiary is named by the transaction, but was not read before the reward.
      have hfresh := hsettled.tracked.agreeAt_base hnoted
      rw [hsettled.base] at hfresh
      exact ((hout _ hnoted).trans hclean).trans hfresh.symm
  have hworld : c.world.values.account ctx.beneficiary =
      p.credited reward (between.account ctx.beneficiary) := by
    rw [hc.valuesOfTouched htouched, account_setAccount_self, hbetween]
  by_cases hchanged : .account ctx.beneficiary ∈ c.world.changed
  · have hmerged := Accumulator.values_importChanges_of_changed (w := credited)
      hc.standsOn.sound hchanged
    exact iff_of_true (Eq.trans hmerged hworld) fun hnets => hnets.2.1 hchanged
  · -- The context says nothing of the beneficiary, so the credited reward stays.
    have hmerged : (credited.importChanges c.world).values.account ctx.beneficiary =
        credited.values.account ctx.beneficiary :=
      Accumulator.values_importChanges_of_not_changed hc.standsOn.sound hbase hchanged
    have hview : c.world.values.account ctx.beneficiary =
        c.world.base.values.account ctx.beneficiary :=
      Accumulator.agreeAt_base_of_not_changed hchanged
    rw [hmerged, hcredited, hclean, ← hworld, hview, ← hc.standsOn.base, Nets, hc.owed]
    constructor
    · exact fun heq hnets => hnets.2.2 heq
    · intro hnot
      by_contra hne
      exact hnot ⟨htouched, hchanged, hne⟩

/-- A beneficiary that only the reward touched gets the reward, merging or replaying. -/
theorem account_merged_of_untouched (hc : c.Rewarded p ctx t view result reward settled)
    (hp : p.Lawful) (hbase : c.world.base = credited.base)
    (htouched : ¬ c.beneficiaryTouched = true)
    (hcredited : credited.values.account ctx.beneficiary =
      p.credited reward (before.account ctx.beneficiary))
    (hout : AgreeOn settled.notedᶜ between before) :
    (credited.importChanges c.world).values.account ctx.beneficiary =
      p.credited reward (between.account ctx.beneficiary) := by
  have hsettled := hc.standsOn_settled hp
  have hnoted : .account ctx.beneficiary ∉ settled.noted := fun hmem =>
    htouched ((hc.counts hmem).2 rfl)
  -- Not noted before the reward, the account was dropped and has the value of the view.
  have hchanged : .account ctx.beneficiary ∉ c.world.changed := by
    intro hmem
    have hfresh := hsettled.tracked.agreeAt_base hnoted
    apply hmem
    rw [hc.valuesOfUntouched htouched, hc.standsOn.base, ← hsettled.base]
    exact hfresh
  have hmerged : (credited.importChanges c.world).values.account ctx.beneficiary =
      credited.values.account ctx.beneficiary :=
    Accumulator.values_importChanges_of_not_changed hc.standsOn.sound hbase hchanged
  have hbetween : between.account ctx.beneficiary = before.account ctx.beneficiary :=
    hout _ hnoted
  rw [hmerged, hcredited, hbetween]

/-- Merging a context that stands and replaying its transaction give the same result and the same
values off the beneficiary, and at the beneficiary exactly when the context does not net. -/
theorem merge (hc : c.Rewarded p ctx t view result reward settled) (hp : p.Lawful)
    (hr : view.Readable) (hq : q.StandsOn view) (hb : b.StandsOn view)
    (hvalues : b.values = q.values) (hstands : c.stands t ctx.beneficiary b = true) :
    ∃ q' b' : Accumulator,
      (p.process ctx t Validation.full).runOn q = (.ok result, q') ∧
      (p.reconcile ctx.beneficiary t (some c)).runOn b =
        (.ok (.merged { result with inParallel := true }), b') ∧
      b'.StandsOn view ∧
      AgreeOn {.account ctx.beneficiary}ᶜ b'.values q'.values ∧
      (b'.values.account ctx.beneficiary = q'.values.account ctx.beneficiary ↔
        ¬ c.Nets p ctx.beneficiary) := by
  -- What the block has not changed, both courses still find as the view has it.
  have hfound : ∀ d ∉ b.changed, q.values.AgreeAt view.values d := by
    intro d hd
    rw [← hvalues, ← hb.base]
    exact Accumulator.agreeAt_base_of_not_changed hd
  have hclean : AgreeOn settled.noted q.values view.values := fun d hd =>
    hfound d (hc.unchanged_of_stands hb.sound hstands hd)
  obtain ⟨between, q', hprocess, hin, hout, hq'⟩ := hc.replay hp hr hq hclean
  obtain ⟨credited, hreconcile, hcredited, hcreditedValues⟩ := hc.runOn_reconcile hr hb hstands
  have hbase : c.world.base = credited.base := hc.standsOn.base.trans hcredited.base.symm
  rw [hvalues] at hcreditedValues
  have hcreditedBen : credited.values.account ctx.beneficiary =
      p.credited reward (q.values.account ctx.beneficiary) := by
    rw [hcreditedValues, account_setAccount_self]
  have hq'ben : q'.values.account ctx.beneficiary =
      p.credited reward (between.account ctx.beneficiary) := by
    rw [hq', account_setAccount_self]
  refine ⟨q', credited.importChanges c.world, hprocess, hreconcile,
    hcredited.importChanges hc.standsOn, ?_, ?_⟩
  · intro d hd
    have hcreditedAt : credited.values.AgreeAt q.values d := by
      rw [hcreditedValues]
      exact agreeAt_setAccount hd _ _
    have hq'd : q'.values.AgreeAt between d := by
      rw [hq']
      exact agreeAt_setAccount hd _ _
    exact (hc.agreeAt_merged_of_ne hbase hd hcreditedAt hclean hin hout).trans hq'd.symm
  · rw [hq'ben]
    by_cases htouched : c.beneficiaryTouched = true
    · exact hc.account_merged_of_touched hp hbase htouched hcreditedBen
        (hfound _ (hc.beneficiary_unchanged_of_stands hb.sound hstands htouched)) hin hout
    · exact iff_of_true (hc.account_merged_of_untouched hp hbase htouched hcreditedBen hout)
        fun hnets => htouched hnets.1

end Rewarded

end SpeculativeContext

end BlockExecution
