/-
  What a speculative context says of the run that it comes from.

  The run settles on a fresh accumulator over the state before the block. What
  it noted up to there is the footprint of the transaction. The context adds the
  reward to it, or leaves the beneficiary out if only the reward touched it.
-/
import BlockExecution.Proofs.Processing.Lawful
import BlockExecution.Speculation.Speculate

namespace BlockExecution

open BlockExecution.Snapshot

/-! ## Touched addresses -/

theorem mem_ascending {a : Address} {addresses : List Address} :
    a ∈ ascending addresses ↔ a ∈ addresses := by
  unfold ascending
  rw [Std.ExtTreeMap.mem_keys, Std.ExtTreeMap.mem_ofList, List.map_map, List.contains_iff_mem]
  -- Sorting goes through a table of keys without values.
  have hfst : (Prod.fst ∘ fun a : Address => (a, ())) = id := rfl
  rw [hfst, List.map_id]

namespace TouchTracker

variable {tracker : TouchTracker} {a : Address}

theorem mem_touchedAddresses :
    a ∈ tracker.touchedAddresses ↔ ∃ c ∈ tracker.cells, c.address = a := by
  unfold touchedAddresses
  rw [List.mem_append, Std.ExtTreeMap.mem_keys, List.mem_map]
  constructor
  · rintro (haccount | ⟨k, hk, hka⟩)
    · exact ⟨.account a, haccount, rfl⟩
    · exact ⟨.slot k, Std.ExtTreeMap.mem_keys.mp hk, hka⟩
  · rintro ⟨c, hc, hca⟩
    cases c with
    | account b =>
      left
      rw [← (show b = a from hca)]
      exact hc
    | slot k => exact .inr ⟨k, Std.ExtTreeMap.mem_keys.mpr hc, hca⟩

theorem wasTouched_iff : tracker.wasTouched a = true ↔ ∃ c ∈ tracker.cells, c.address = a := by
  rw [← mem_touchedAddresses]
  unfold wasTouched touchedAddresses
  rw [Bool.or_eq_true, List.any_eq_true, ← Std.ExtTreeMap.mem_iff_contains, List.mem_append,
    Std.ExtTreeMap.mem_keys, List.mem_map]
  simp only [beq_iff_eq]

theorem mem_touchedSlots {slot : Word} :
    slot ∈ tracker.touchedSlots a ↔ Cell.slot ⟨a, slot⟩ ∈ tracker.cells := by
  unfold touchedSlots
  rw [List.mem_map]
  constructor
  · rintro ⟨k, hk, rfl⟩
    obtain ⟨hkeys, hka⟩ := List.mem_filter.mp hk
    obtain rfl : k.address = a := eq_of_beq hka
    exact Std.ExtTreeMap.mem_keys.mp hkeys
  · intro h
    exact ⟨⟨a, slot⟩, List.mem_filter.mpr ⟨Std.ExtTreeMap.mem_keys.mpr h, beq_self_eq_true a⟩, rfl⟩

end TouchTracker

namespace Transaction

variable {t : Transaction} {tracker : TouchTracker} {a : Address}

theorem mem_touchedAddresses :
    a ∈ t.touchedAddresses tracker ↔
      a ∈ t.namedAddresses ∨ ∃ c ∈ tracker.cells, c.address = a := by
  unfold touchedAddresses
  rw [mem_ascending, List.mem_append, TouchTracker.mem_touchedAddresses]

theorem touches_iff : t.touches tracker a = true ↔ a ∈ t.touchedAddresses tracker := by
  rw [mem_touchedAddresses, touches, Bool.or_eq_true, TouchTracker.wasTouched_iff,
    List.contains_iff_mem]

end Transaction

/-! ## Contexts -/

namespace SpeculativeContext

variable {p : Processor} {ctx : BlockContext} {t : Transaction} {view : WorldView}

/-- The context of a transaction that settled on a fresh accumulator. -/
structure ComesFrom (c : SpeculativeContext) (p : Processor) (ctx : BlockContext)
    (t : Transaction) (view : WorldView) (st : Settlement) (settled : Accumulator) : Prop where
  run : (p.settle ctx t Validation.full).runOn (.ofView view) = (.ok st, settled)
  result : c.result = st.result
  standsOn : c.world.StandsOn view

/-- The context of a transaction that settled with a reward: the reward is part of it where the
transaction touched the beneficiary itself. -/
structure Rewarded (c : SpeculativeContext) (p : Processor) (ctx : BlockContext)
    (t : Transaction) (view : WorldView) (result : ProcessingResult) (reward : Word)
    (settled : Accumulator) : Prop
    extends ComesFrom c p ctx t view ⟨result, some reward⟩ settled where
  owed : c.reward = reward
  touched : c.beneficiaryTouched = t.touches settled.tracker ctx.beneficiary
  valuesOfTouched : c.beneficiaryTouched = true →
    c.world.values = settled.values.setAccount ctx.beneficiary
      (p.credited reward (settled.values.account ctx.beneficiary))
  valuesOfUntouched : ¬ c.beneficiaryTouched = true → c.world.values = settled.values
  noted : settled.noted ⊆ c.world.noted
  notedOnly : c.world.noted ⊆ insert (.account ctx.beneficiary) settled.noted

theorem processTraced_of_settled {v : Validation} {w settled : Accumulator} {st : Settlement}
    (h : (p.settle ctx t v).runOn w = (.ok st, settled)) :
    p.processTraced ctx t v w =
      ⟨((p.finish ctx.beneficiary st).runOn settled).1,
        ((p.finish ctx.beneficiary st).runOn settled).2,
        (st.reward.map fun reward =>
          RewardTrace.observe t ctx.beneficiary reward settled).getD {}⟩ := by
  unfold Processor.processTraced
  rw [h]
  cases hreward : st.reward <;> simp only [hreward] <;> rfl

/-- The context of a transaction that settled on a fresh accumulator, with or without a reward. -/
def Valid (c : SpeculativeContext) (p : Processor) (ctx : BlockContext) (t : Transaction)
    (view : WorldView) : Prop :=
  ∃ st settled, c.ComesFrom p ctx t view st settled ∧
    ∀ reward, st.reward = some reward → c.Rewarded p ctx t view st.result reward settled

/-- The context of a run that settled with a reward says what `Rewarded` demands. -/
theorem rewarded_of_ofRun (hp : p.Lawful) (hr : view.Readable) {index : Nat}
    {c : SpeculativeContext} {result : ProcessingResult} {reward : Word} {settled : Accumulator}
    (hrun : (p.settle ctx t Validation.full).runOn (.ofView view) =
      (.ok ⟨result, some reward⟩, settled))
    (h : ofRun index ctx.beneficiary
      (p.processTraced ctx t Validation.full (.ofView view)) = some c) :
    c.Rewarded p ctx t view result reward settled := by
  have hsettled := hp.standsOn_of_settled (Accumulator.standsOn_ofView view) hrun
  obtain ⟨credited, hfinish, hext, hvalues, hnoted⟩ :=
    Processor.runOn_finish_of_some (p := p) hsettled hr ctx.beneficiary result reward
  have hcredited := (hext.standsOn hsettled).commit
  rw [processTraced_of_settled hrun] at h
  simp only [hfinish, ofRun, RewardTrace.observe, Option.map_some, Option.getD_some] at h
  by_cases htouched : t.touches settled.tracker ctx.beneficiary = true
  · rw [if_pos htouched] at h
    obtain rfl := Option.some.inj h
    exact
      { run := hrun
        result := rfl
        standsOn := hcredited
        owed := rfl
        touched := rfl
        valuesOfTouched := fun _ => hvalues
        valuesOfUntouched := fun hnot => absurd htouched hnot
        noted := hext.noted
        notedOnly := hnoted }
  · -- The beneficiary is dropped from the context: nothing of it was noted before the reward.
    rw [if_neg htouched] at h
    obtain rfl := Option.some.inj h
    have hoff : ∀ c ∈ settled.noted, c.address ≠ ctx.beneficiary := fun c hc heq =>
      htouched (Transaction.touches_iff.mpr
        (Transaction.mem_touchedAddresses.mpr (.inr ⟨c, hc, heq⟩)))
    have hother : ∀ c : Cell, c.address ≠ ctx.beneficiary →
        credited.commit.values.AgreeAt settled.values c := by
      intro c hc
      have hne : c ≠ .account ctx.beneficiary := fun heq => hc (heq ▸ rfl)
      show credited.values.AgreeAt settled.values c
      rw [hvalues]
      exact agreeAt_setAccount hne _ _
    exact
      { run := hrun
        result := rfl
        standsOn := hcredited.forget ctx.beneficiary
        owed := rfl
        touched := rfl
        valuesOfTouched := fun htrue => absurd htrue htouched
        valuesOfUntouched := fun _ =>
          Accumulator.values_forget_of_not_noted hsettled.tracked hext.base hother hoff
        noted := by
          rw [Accumulator.noted_forget]
          exact fun c hc => ⟨hext.noted hc, hoff c hc⟩
        notedOnly := by
          rw [Accumulator.noted_forget]
          exact fun c hc => hnoted hc.1 }

/-- The context of a run on a fresh accumulator is valid. -/
theorem valid_of_ofRun (hp : p.Lawful) (hr : view.Readable) {index : Nat}
    {c : SpeculativeContext}
    (h : ofRun index ctx.beneficiary
      (p.processTraced ctx t Validation.full (.ofView view)) = some c) :
    c.Valid p ctx t view := by
  rcases hrun : (p.settle ctx t Validation.full).runOn (.ofView view) with ⟨answer, settled⟩
  cases answer with
  | error e =>
    unfold Processor.processTraced ofRun at h
    rw [hrun] at h
    cases h
  | ok st =>
    obtain ⟨result, reward⟩ := st
    cases reward with
    | none =>
      -- A transaction that is rejected is not rewarded.
      rw [processTraced_of_settled hrun, Processor.runOn_finish_of_none] at h
      obtain rfl := Option.some.inj h
      have hsettled := hp.standsOn_of_settled (Accumulator.standsOn_ofView view) hrun
      exact ⟨_, settled, ⟨hrun, rfl, hsettled.commit.forget _⟩,
        fun reward hreward => nomatch hreward⟩
    | some reward =>
      have hrewarded := rewarded_of_ofRun hp hr hrun h
      refine ⟨_, settled, hrewarded.toComesFrom, ?_⟩
      rintro _ ⟨⟩
      exact hrewarded

/-- A settlement on a fresh accumulator gives a context. -/
theorem exists_ofRun (hp : p.Lawful) (hr : view.Readable) (index : Nat) {st : Settlement}
    {settled : Accumulator}
    (h : (p.settle ctx t Validation.full).runOn (.ofView view) = (.ok st, settled)) :
    ∃ c, ofRun index ctx.beneficiary
      (p.processTraced ctx t Validation.full (.ofView view)) = some c := by
  have hsettled := hp.standsOn_of_settled (Accumulator.standsOn_ofView view) h
  rw [processTraced_of_settled h]
  obtain ⟨result, reward⟩ := st
  cases reward with
  | none => exact ⟨_, rfl⟩
  | some reward =>
    obtain ⟨credited, hfinish, -, -, -⟩ :=
      Processor.runOn_finish_of_some (p := p) hsettled hr ctx.beneficiary result reward
    rw [hfinish]
    exact ⟨_, rfl⟩

/-- A successful context has a reward. -/
theorem Valid.rewarded {c : SpeculativeContext} (hc : c.Valid p ctx t view) (hp : p.Lawful)
    (hr : view.Readable) (hsuccess : c.result.isSuccessful = true) :
    ∃ result reward settled, c.Rewarded p ctx t view result reward settled := by
  obtain ⟨st, settled, hcomes, hrewarded⟩ := hc
  have hrun : ((p.settle ctx t Validation.full).runOn (.ofView view)).1 = .ok st := by
    rw [hcomes.run]
  obtain ⟨reward, hreward⟩ := hp.rewarded (Accumulator.standsOn_ofView view) hr hrun
    (hcomes.result ▸ hsuccess)
  exact ⟨st.result, reward, settled, hrewarded reward hreward⟩

theorem Valid.standsOn {c : SpeculativeContext} (hc : c.Valid p ctx t view) :
    c.world.StandsOn view := by
  obtain ⟨st, settled, hcomes, -⟩ := hc
  exact hcomes.standsOn

/-- What was speculated on is the state of the parent. -/
theorem valid_of_speculate (hp : p.Lawful) {archive : Archive} {parent : WorldState}
    (hparent : archive.state? ctx.header.parentHash = some parent) {index : Nat}
    {c : SpeculativeContext} (h : p.speculate archive ctx index t = some c) :
    c.Valid p ctx t parent.view := by
  have hopen : archive.openState ctx.header.parentHash = .ok parent.view := by
    unfold Archive.openState
    rw [hparent]
  unfold Processor.speculate at h
  simp only [hopen] at h
  split at h
  · cases h
  · exact valid_of_ofRun hp parent.readable_view h

/-- On the head there is a context for every transaction that settles. -/
theorem exists_speculate (hp : p.Lawful) {archive : Archive} {parent : WorldState}
    (hhead : archive.head = ctx.header.parentHash)
    (hparent : archive.state? ctx.header.parentHash = some parent) (index : Nat)
    {st : Settlement} {settled : Accumulator}
    (h : (p.settle ctx t Validation.full).runOn (.ofView parent.view) = (.ok st, settled)) :
    ∃ c, p.speculate archive ctx index t = some c := by
  have hopen : archive.openState ctx.header.parentHash = .ok parent.view := by
    unfold Archive.openState
    rw [hparent]
  unfold Processor.speculate
  simp only [hopen, hhead, ne_eq, not_true_eq_false, if_false]
  exact exists_ofRun hp parent.readable_view index h

end SpeculativeContext

end BlockExecution
