/-
  The touch tracker as a read set.

  Up to its reward a transaction is decided by the values of the cells that its
  tracker holds at that moment. On any accumulator with these values, whatever
  else it holds and whatever is left on its journal, the run answers the same,
  a watcher is told of the same reward, and the same values are left there. The
  rest of the state stays as it was, the beneficiary excepted: its reward comes
  after that moment, whether the tracker holds it or not.
-/
import BlockExecution.Proofs.Simple.Decoding

namespace BlockExecution

open BlockExecution.Snapshot

theorem TouchTracker.cells_eq_empty {tracker : TouchTracker} (h : tracker.isEmpty = true) :
    tracker.cells = ∅ := by
  obtain ⟨haccounts, hslots⟩ := (Bool.and_eq_true _ _).mp h
  rw [Std.ExtTreeMap.isEmpty_iff] at haccounts hslots
  ext c
  cases c with
  | account a =>
    show a ∈ tracker.accounts ↔ _
    rw [haccounts]
    exact iff_of_false Std.ExtTreeMap.not_mem_empty (Set.notMem_empty _)
  | slot k =>
    show k ∈ tracker.slots ↔ _
    rw [hslots]
    exact iff_of_false Std.ExtTreeMap.not_mem_empty (Set.notMem_empty _)

/-- Agreement where an access was noted is agreement on the cells that the tracker lists. -/
theorem agreeOn_noted_iff {w : Accumulator} {u v : Snapshot} :
    AgreeOn w.noted u v ↔ (∀ a ∈ w.tracker.accounts.keys, u.account a = v.account a) ∧
      ∀ k ∈ w.tracker.slots.keys, u.slot k = v.slot k := by
  simp only [Std.ExtTreeMap.mem_keys]
  constructor
  · intro h
    exact ⟨fun a ha => h (.account a) ha, fun k hk => h (.slot k) hk⟩
  · rintro ⟨haccounts, hslots⟩ c hc
    cases c with
    | account a => exact haccounts a hc
    | slot k => exact hslots k hc

/-! ## Runs in two parts -/

namespace Processor

variable {p : Processor} {ctx : BlockContext} {t : Transaction} {v : Validation}
  {w b s reached final : Accumulator} {st : Settlement} {beneficiary : Address} {owed : Option Word}
  {u u' : Snapshot} {region : Set Cell}

/-- The values after what is owed to the beneficiary was paid. Nothing is where a transaction was
refused; and a reward of zero is not credited where empty accounts are deleted. -/
def paid (p : Processor) (beneficiary : Address) (owed : Option Word) (u : Snapshot) : Snapshot :=
  match owed with
  | none => u
  | some reward =>
    if reward = 0 ∧ p.config.clearEmptyAccounts = true then u else u.credit beneficiary reward

theorem paid_some (p : Processor) (beneficiary : Address) (reward : Word) (u : Snapshot) :
    p.paid beneficiary (some reward) u =
      u.setAccount beneficiary (p.credited reward (u.account beneficiary)) :=
  (rewarded_eq beneficiary).symm

@[simp] theorem slot_paid (p : Processor) (beneficiary : Address) (owed : Option Word)
    (u : Snapshot) : (p.paid beneficiary owed u).slot = u.slot := by
  cases owed with
  | none => rfl
  | some reward => rw [paid_some, slot_setAccount]

theorem agreeOn_paid (p : Processor) (beneficiary : Address) (owed : Option Word)
    (u : Snapshot) : AgreeOn {.account beneficiary}ᶜ (p.paid beneficiary owed u) u := by
  cases owed with
  | none => exact .refl _ u
  | some reward =>
    rw [paid_some]
    exact fun c hc => agreeAt_setAccount hc u _

/-- Where values agree they agree after the reward, since a credit depends on nothing but the
account that it goes to. -/
theorem agreeOn_paid_congr (h : AgreeOn region u u') :
    AgreeOn region (p.paid beneficiary owed u) (p.paid beneficiary owed u') := by
  intro c hc
  by_cases hbeneficiary : c = .account beneficiary
  · subst hbeneficiary
    have hfound : u.account beneficiary = u'.account beneficiary := h _ hc
    cases owed with
    | none => exact hfound
    | some reward =>
      rw [paid_some, paid_some]
      show (u.setAccount beneficiary _).account beneficiary =
        (u'.setAccount beneficiary _).account beneficiary
      rw [account_setAccount_self, account_setAccount_self, hfound]
  · exact ((agreeOn_paid p beneficiary owed u c hbeneficiary).trans (h c hc)).trans
      (agreeOn_paid p beneficiary owed u' c hbeneficiary).symm

/-- A run that settles as `st` on the accumulator `reached` and ends on `final`. Just before the
reward a watcher is told of it and shown `reached`; where none is owed it is not called. -/
structure Watched (p : Processor) (ctx : BlockContext) (t : Transaction) (v : Validation)
    (w : Accumulator) (st : Settlement) (reached final : Accumulator) : Prop where
  settled : (p.settle ctx t v).runOn w = (.ok st, reached)
  processed : (p.process ctx t v).runOn w = (.ok st.result, final)
  traced : p.processTraced ctx t v w = ⟨.ok st.result, final,
    (st.reward.map fun reward => .observe t ctx.beneficiary reward reached).getD {}⟩
  paid : final.values = p.paid ctx.beneficiary st.reward reached.values

/-- A run that changes no more than `region` before its reward, and no more than that and the
beneficiary in the end. -/
structure WatchedWithin (p : Processor) (ctx : BlockContext) (t : Transaction) (v : Validation)
    (w : Accumulator) (region : Set Cell) (st : Settlement) (reached final : Accumulator) :
    Prop extends Watched p ctx t v w st reached final where
  before : AgreeOn regionᶜ reached.values w.values
  after : AgreeOn (insert (.account ctx.beneficiary) region)ᶜ final.values w.values

/-- What is owed can be paid on every accumulator over a readable view. -/
theorem exists_finish (hs : w.Sound) (hr : w.base.Readable) (beneficiary : Address)
    (st : Settlement) :
    ∃ final, (p.finish beneficiary st).runOn w = (.ok st.result, final) ∧
      final.values = p.paid beneficiary st.reward w.values := by
  obtain ⟨result, owed⟩ := st
  cases owed with
  | none => exact ⟨w, rfl, rfl⟩
  | some reward =>
    obtain ⟨final, hrun, -, hvalues, -⟩ :=
      runOn_creditReward_of_sound (p := p) hs hr beneficiary reward
    refine ⟨final, (Execution.runOn_bind_of_ok hrun).trans rfl, ?_⟩
    rw [hvalues, paid_some]

/-- A run that settles is a run that ends: the reward can be paid. -/
theorem exists_watched (hs : reached.Sound) (hr : reached.base.Readable)
    (hsettled : (p.settle ctx t v).runOn w = (.ok st, reached)) :
    ∃ final, p.Watched ctx t v w st reached final := by
  obtain ⟨final, hfinish, hpaid⟩ := exists_finish (p := p) hs hr ctx.beneficiary st
  refine ⟨final, hsettled, (Execution.runOn_bind_of_ok hsettled).trans hfinish, ?_, hpaid⟩
  rw [SpeculativeContext.processTraced_of_settled hsettled, hfinish]

/-- The reward changes nothing but the beneficiary. -/
theorem Watched.within (h : p.Watched ctx t v w st reached final)
    (hbefore : AgreeOn regionᶜ reached.values w.values) :
    p.WatchedWithin ctx t v w region st reached final := by
  refine ⟨h, hbefore, fun c hc => ?_⟩
  rw [Set.mem_compl_iff, Set.mem_insert_iff, not_or] at hc
  rw [h.paid]
  exact (agreeOn_paid p ctx.beneficiary st.reward reached.values c hc.1).trans (hbefore c hc.2)

/-- What a local settlement does from accumulators that agree where its run with an empty tracker
noted an access: the same throughout, and it changes nothing elsewhere. -/
theorem exists_watchedWithin (hlocal : Local (p.settle ctx t v).runOn) (hs : s.Sound)
    (hr : s.base.Readable) (hempty : s.tracker.isEmpty = true)
    (hsettled : (p.settle ctx t v).runOn s = (.ok st, reached)) (hb : b.Sound)
    (hbr : b.base.Readable) (hagree : AgreeOn reached.noted b.values s.values) :
    ∃ reached' final, p.WatchedWithin ctx t v b reached.noted st reached' final ∧
      AgreeOn reached.noted reached'.values reached.values := by
  obtain ⟨region, hfoot⟩ := hlocal.footprint s hs hr
  -- From an empty tracker on, the cells noted are the footprint.
  have hnoted : reached.noted = region := by
    have hmine := (hfoot s hs hr (.refl _ _)).noted
    have hstart : s.noted = ∅ := TouchTracker.cells_eq_empty hempty
    rwa [hsettled, hstart, Set.empty_union] at hmine
  subst hnoted
  obtain ⟨⟨hanswer, hwithin, houtside⟩, -⟩ := hfoot b hb hbr hagree
  have hext := hlocal.grows b hb
  rcases hrun : (p.settle ctx t v).runOn b with ⟨answer, reached'⟩
  rw [hrun] at hanswer hwithin houtside hext
  rw [hsettled] at hanswer hwithin
  obtain rfl : answer = .ok st := hanswer
  obtain ⟨final, hwatched⟩ := exists_watched hext.sound (hext.base ▸ hbr) hrun
  exact ⟨reached', final, hwatched.within houtside, hwithin⟩

end Processor

/-! ## Transactions of the slot processor -/

namespace Simple

/-- The cells that a transaction has in its tracker when it reaches its reward, or its end if it is
refused, are a read set of it. A run from an empty tracker changes nothing else but the beneficiary,
and every run that starts with the same values there settles with the same result and the same
reward, leaves the same values there, pays the beneficiary by the same rule and changes nothing else
either. -/
theorem process_readSet (config : ProcessorConfig) (ctx : BlockContext) (t : Transaction)
    (v : Validation) {w₁ : Accumulator} (hs₁ : w₁.Sound) (hr₁ : w₁.base.Readable)
    (hempty : w₁.tracker.isEmpty = true) :
    ∃ st reached₁ final₁,
      (processor config).WatchedWithin ctx t v w₁ reached₁.noted st reached₁ final₁ ∧
      ∀ w₂ : Accumulator, w₂.Sound → w₂.base.Readable →
        AgreeOn reached₁.noted w₂.values w₁.values →
        ∃ reached₂ final₂,
          (processor config).WatchedWithin ctx t v w₂ reached₁.noted st reached₂ final₂ ∧
          AgreeOn reached₁.noted reached₂.values reached₁.values ∧
          AgreeOn reached₁.noted final₂.values final₁.values := by
  obtain ⟨reached₁, hsettled, -, -⟩ := (gives_settle config ctx t v w₁.values).run hs₁ hr₁
  have hlocal : Local ((processor config).settle ctx t v).runOn := local_settle config ctx t v
  obtain ⟨_, final₁, hwatched₁, -⟩ := Processor.exists_watchedWithin hlocal hs₁ hr₁ hempty
    hsettled hs₁ hr₁ (.refl _ _)
  obtain rfl := congrArg Prod.snd (hwatched₁.settled.symm.trans hsettled)
  refine ⟨_, _, final₁, hwatched₁, fun w₂ hs₂ hr₂ hagree => ?_⟩
  obtain ⟨reached₂, final₂, hwatched₂, hreached⟩ :=
    Processor.exists_watchedWithin hlocal hs₁ hr₁ hempty hsettled hs₂ hr₂ hagree
  refine ⟨reached₂, final₂, hwatched₂, hreached, ?_⟩
  rw [hwatched₂.paid, hwatched₁.paid]
  exact Processor.agreeOn_paid_congr hreached

/-! ## A transfer among strangers -/

/-- The payer of a transfer beside a stranger. -/
def strangersState : WorldState :=
  ((∅ : WorldState).insertAccount 1 (.plain 0 1000000000)).insertAccount 6 (.plain 3 4)

/-- An accumulator over it with a payment to another stranger that is still on the journal. -/
def besideStrangers : Accumulator :=
  ((Execution.increaseBalance 8 5).runOn (.ofView strangersState.view)).2

theorem extends_besideStrangers :
    (Accumulator.ofView strangersState.view).Extends besideStrangers :=
  (Local.increaseBalance 8 5).grows _ (Accumulator.sound_ofView _)

/-- What is known of the transfer on the state of the payers holds of it there, where the second
payer is missing. -/
theorem process_readSet_transfer :
    ∃ w', ((processor { verifySignatures := false }).process countTwiceContext
        (transferOf 1 3 0 []) .full).runOn besideStrangers = (.ok (.successful 21000 []), w') ∧
      w'.values.account 3 = some (.plain 0 1) := by
  have hsound := extends_besideStrangers.sound
  have hreadable : besideStrangers.base.Readable := by
    rw [extends_besideStrangers.base]
    exact strangersState.readable_view
  obtain ⟨st, reached₁, final₁, h₁, hfollows⟩ :=
    process_readSet { verifySignatures := false } countTwiceContext (transferOf 1 3 0 []) .full
      (Accumulator.sound_ofView payersState.view) payersState.readable_view rfl
  have hreached : ((settle { verifySignatures := false } countTwiceContext
      (transferOf 1 3 0 []) .full).runOn (.ofView payersState.view)).2 = reached₁ :=
    congrArg Prod.snd h₁.settled
  have haccounts : reached₁.tracker.accounts.keys = [1, 3] := by
    rw [← hreached]
    decide +kernel
  have hslots : reached₁.tracker.slots.keys = [] := by
    rw [← hreached]
    decide +kernel
  -- Only the two parties were noted, so only their values have to agree.
  have hagree : AgreeOn reached₁.noted besideStrangers.values payersState.view.values := by
    rw [agreeOn_noted_iff, haccounts, hslots]
    simp only [List.forall_mem_cons, List.not_mem_nil, false_implies, implies_true, and_true]
    exact ⟨by decide +kernel, by decide +kernel⟩
  obtain ⟨reached₂, final₂, h₂, -, hfinal⟩ := hfollows besideStrangers hsound hreadable hagree
  obtain ⟨hresult, hvalues⟩ := eq_processOn_of_runOn
    (Accumulator.sound_ofView payersState.view) payersState.readable_view h₁.processed
  refine ⟨final₂, ?_, ?_⟩
  · rw [h₂.processed, hresult]
    have hsuccessful : (processOn { verifySignatures := false } countTwiceContext
        (transferOf 1 3 0 []) .full payersState.view.values).1 = .successful 21000 [] := by
      decide +kernel
    exact congrArg (fun result => (Except.ok result, final₂)) hsuccessful
  · have hrecipient : Cell.account 3 ∈ reached₁.noted :=
      Std.ExtTreeMap.mem_keys.mp (haccounts ▸ by decide)
    have hsame : final₂.values.account 3 = final₁.values.account 3 := hfinal _ hrecipient
    rw [hsame, hvalues]
    decide +kernel

end Simple

end BlockExecution
