/-
  Which transactions a block takes over from speculation.

  A context stands exactly when its run succeeded and the block has so far left
  the accounts and slots that the run used as they were. As the courses are in
  lockstep, what the block has changed so far is what the sequential course has,
  so the transactions taken over can be told from that course alone.
-/
import BlockExecution.Proofs.Block.Equivalence

namespace BlockExecution

open BlockExecution.Snapshot

/-! ## What a run used -/

namespace Transaction

variable {t : Transaction} {w settled : Accumulator} {a beneficiary : Address}

/-- Where nothing but the reward was added to what a transaction noted, the addresses that it
touched, without a beneficiary that only the reward touched, are those from before the reward. -/
theorem touchedAddresses_rewarded (hnoted : settled.noted ⊆ w.noted)
    (honly : w.noted ⊆ insert (.account beneficiary) settled.noted) :
    (a ∈ t.touchedAddresses w.tracker ∧
        (a = beneficiary → a ∈ t.touchedAddresses settled.tracker)) ↔
      a ∈ t.touchedAddresses settled.tracker := by
  constructor
  · rintro ⟨ha, hben⟩
    -- All that was noted besides is the account of the beneficiary, and `hben` answers for that.
    by_cases heq : a = beneficiary
    · exact hben heq
    · rw [mem_touchedAddresses] at ha ⊢
      rcases ha with hnamed | ⟨d, hd, rfl⟩
      · exact .inl hnamed
      · rcases honly hd with rfl | hsettled
        · exact absurd rfl heq
        · exact .inr ⟨d, hsettled, rfl⟩
  · intro ha
    refine ⟨?_, fun _ => ha⟩
    rw [mem_touchedAddresses] at ha ⊢
    rcases ha with hnamed | ⟨d, hd, hda⟩
    · exact .inl hnamed
    · exact .inr ⟨d, hnoted hd, hda⟩

theorem noted_slot_rewarded (hnoted : settled.noted ⊆ w.noted)
    (honly : w.noted ⊆ insert (.account beneficiary) settled.noted) (k : StorageKey) :
    .slot k ∈ w.noted ↔ .slot k ∈ settled.noted := by
  constructor
  · intro hk
    rcases honly hk with heq | hsettled
    · cases heq
    · exact hsettled
  · exact fun hk => hnoted hk

end Transaction

/-- Whether nothing that a transaction used up to its reward is changed in a block. -/
def Accumulator.Spares (block : Accumulator) (t : Transaction) (settled : Accumulator) : Prop :=
  (∀ a ∈ t.touchedAddresses settled.tracker, .account a ∉ block.changed) ∧
    ∀ k, .slot k ∈ settled.noted → .slot k ∉ block.changed

theorem SpeculativeContext.Rewarded.stands_iff_spares {p : Processor} {ctx : BlockContext}
    {t : Transaction} {view : WorldView} {c : SpeculativeContext} {result : ProcessingResult}
    {reward : Word} {settled block : Accumulator}
    (hc : c.Rewarded p ctx t view result reward settled) (hb : block.Sound) :
    c.stands t ctx.beneficiary block = true ↔
      c.result.isSuccessful = true ∧ block.Spares t settled := by
  -- The addresses that count for a collision are those from before the reward.
  have htouched : ∀ a, (a ∈ t.touchedAddresses c.world.tracker ∧
      (a = ctx.beneficiary → c.beneficiaryTouched = true)) ↔
        a ∈ t.touchedAddresses settled.tracker := by
    intro a
    rw [← Transaction.touchedAddresses_rewarded hc.noted hc.notedOnly]
    apply and_congr_right
    intro _
    apply forall_congr'
    rintro rfl
    exact hc.touched_iff
  have hslot := Transaction.noted_slot_rewarded hc.noted hc.notedOnly
  rw [SpeculativeContext.stands_iff hb]
  apply and_congr_right
  intro _
  constructor
  · intro h
    constructor
    · intro a ha
      obtain ⟨hmem, hben⟩ := (htouched a).mpr ha
      exact (h a hmem hben).1
    · intro k hk
      have haddress : k.address ∈ t.touchedAddresses settled.tracker :=
        Transaction.mem_touchedAddresses.mpr (.inr ⟨.slot k, hk, rfl⟩)
      obtain ⟨hmem, hben⟩ := (htouched k.address).mpr haddress
      exact (h k.address hmem hben).2 k.slot ((hslot k).mpr hk)
  · intro h a hmem hben
    exact ⟨h.1 a ((htouched a).mp ⟨hmem, hben⟩), fun slot hnoted => h.2 _ ((hslot _).mp hnoted)⟩

/-! ## Independence -/

namespace Accumulator

variable {w : Accumulator} {parent : WorldState}

theorem account_notMem_changed_iff (hw : w.StandsOn parent.view) (a : Address) :
    .account a ∉ w.changed ↔ (parent.apply w.changes).account? a = parent.account? a := by
  rw [account?_apply_changes hw.sound hw.base]
  have hbase : w.base.values.account a = parent.account? a := by
    rw [hw.base]
    rfl
  rw [← hbase]
  exact not_not

/-- A slot stays as it was, in the block and in the state, if its account does. -/
theorem slot_notMem_changed_iff (hw : w.StandsOn parent.view) {k : StorageKey}
    (haccount : (parent.apply w.changes).account? k.address = parent.account? k.address) :
    .slot k ∉ w.changed ↔ (parent.apply w.changes).storageValue k = parent.storageValue k := by
  -- A slot reads as zero in the state once its account is deleted.
  have hkept : w.values.account k.address = none → parent.account? k.address = none := by
    intro hnone
    rw [← haccount, account?_apply_changes hw.sound hw.base, hnone]
  rw [storageValue_apply_changes hw.sound hw.base hkept]
  have hbase : w.base.values.slot k = parent.storageValue k := by
    rw [hw.base]
    rfl
  rw [← hbase]
  exact not_not

end Accumulator

namespace Processor

variable {p : Processor} {archive : Archive} {block : Block} {schedule : Schedule}
  {parent now : WorldState} {ctx : BlockContext} {t : Transaction} {index : Nat}
  {c : SpeculativeContext}

/-- A transaction run alone on the state before its block. -/
def alone (p : Processor) (ctx : BlockContext) (parent : WorldState) (t : Transaction) :
    TracedRun :=
  p.processTraced ctx t Validation.full (.ofView parent.view)

/-- What a transaction run alone has come to before its reward. -/
def settledAlone (p : Processor) (ctx : BlockContext) (parent : WorldState) (t : Transaction) :
    Accumulator :=
  ((p.settle ctx t Validation.full).runOn (.ofView parent.view)).2

/-- Whether a transaction run alone on the state `parent` succeeds and used nothing that has another
value in the state `now`. A beneficiary that only the reward touched does not count. -/
structure Independent (p : Processor) (ctx : BlockContext) (t : Transaction)
    (parent now : WorldState) : Prop where
  successful : ∃ result, (p.alone ctx parent t).result = .ok result ∧ result.isSuccessful = true
  accounts : ∀ a ∈ t.touchedAddresses (p.alone ctx parent t).world.tracker,
    (a = ctx.beneficiary → a ∈ t.touchedAddresses (p.settledAlone ctx parent t).tracker) →
      now.account? a = parent.account? a
  slots : ∀ a, ∀ slot ∈ (p.alone ctx parent t).world.tracker.touchedSlots a,
    now.storageValue ⟨a, slot⟩ = parent.storageValue ⟨a, slot⟩

/-- The run alone of a transaction that settles. -/
theorem alone_of_settled (hp : p.Lawful) {st : Settlement} {settled : Accumulator}
    (h : (p.settle ctx t Validation.full).runOn (.ofView parent.view) = (.ok st, settled)) :
    (p.alone ctx parent t).result = .ok st.result ∧
      settled.noted ⊆ (p.alone ctx parent t).world.noted ∧
      (p.alone ctx parent t).world.noted ⊆ insert (.account ctx.beneficiary) settled.noted := by
  have hsettled := hp.standsOn_of_settled (Accumulator.standsOn_ofView parent.view) h
  unfold alone
  rw [SpeculativeContext.processTraced_of_settled h]
  obtain ⟨result, reward⟩ := st
  cases reward with
  | none => exact ⟨rfl, subset_rfl, Set.subset_insert _ _⟩
  | some reward =>
    obtain ⟨w, hfinish, hext, -, hnoted⟩ :=
      runOn_finish_of_some (p := p) hsettled parent.readable_view ctx.beneficiary result reward
    rw [hfinish]
    exact ⟨rfl, hext.noted, hnoted⟩

/-- A transaction is independent exactly when it succeeds and the block spares what it used. -/
theorem independent_iff_spares (hp : p.Lawful) {st : Settlement} {settled w : Accumulator}
    (h : (p.settle ctx t Validation.full).runOn (.ofView parent.view) = (.ok st, settled))
    (hw : w.StandsOn parent.view) :
    p.Independent ctx t parent (parent.apply w.changes) ↔
      st.result.isSuccessful = true ∧ w.Spares t settled := by
  obtain ⟨hanswer, hnoted, honly⟩ := alone_of_settled hp h
  have hsettled : p.settledAlone ctx parent t = settled := congrArg Prod.snd h
  have htouched : ∀ {k}, Cell.slot k ∈ settled.noted →
      k.address ∈ t.touchedAddresses settled.tracker := fun hk =>
    Transaction.mem_touchedAddresses.mpr (.inr ⟨_, hk, rfl⟩)
  constructor
  · intro hindependent
    obtain ⟨result, hresult, hsuccess⟩ := hindependent.successful
    rw [hanswer, Except.ok.injEq] at hresult
    have haccount : ∀ a ∈ t.touchedAddresses settled.tracker,
        (parent.apply w.changes).account? a = parent.account? a := by
      intro a ha
      obtain ⟨hmem, hben⟩ := (Transaction.touchedAddresses_rewarded hnoted honly).mpr ha
      exact hindependent.accounts a hmem (hsettled ▸ hben)
    refine ⟨hresult ▸ hsuccess, ?_, ?_⟩
    · exact fun a ha => (Accumulator.account_notMem_changed_iff hw a).mpr (haccount a ha)
    · intro k hk
      have hslot : k.slot ∈ (p.alone ctx parent t).world.tracker.touchedSlots k.address :=
        TouchTracker.mem_touchedSlots.mpr
          ((Transaction.noted_slot_rewarded hnoted honly k).mpr hk)
      exact (Accumulator.slot_notMem_changed_iff hw (haccount _ (htouched hk))).mpr
        (hindependent.slots k.address k.slot hslot)
  · rintro ⟨hsuccess, haccounts, hslots⟩
    refine ⟨⟨st.result, hanswer, hsuccess⟩, ?_, ?_⟩
    · intro a ha hben
      rw [hsettled] at hben
      exact (Accumulator.account_notMem_changed_iff hw a).mp
        (haccounts a ((Transaction.touchedAddresses_rewarded hnoted honly).mp ⟨ha, hben⟩))
    · intro a slot hslot
      have hmem : Cell.slot ⟨a, slot⟩ ∈ settled.noted :=
        (Transaction.noted_slot_rewarded hnoted honly _).mp
          (TouchTracker.mem_touchedSlots.mp hslot)
      -- The state drops the slots of a deleted account, but this account is as it was.
      have hsame := (Accumulator.account_notMem_changed_iff hw a).mp
        (haccounts a (htouched hmem))
      exact (Accumulator.slot_notMem_changed_iff hw hsame).mp (hslots _ hmem)

/-- A context stands exactly where its transaction is independent. -/
theorem stands_iff_independent (hp : p.Lawful) (hc : c.Valid p ctx t parent.view)
    {w : Accumulator} (hw : w.StandsOn parent.view) :
    c.stands t ctx.beneficiary w = true ↔
      p.Independent ctx t parent (parent.apply w.changes) := by
  obtain ⟨st, settled, hcomes, hall⟩ := hc
  rw [independent_iff_spares hp hcomes.run hw, ← hcomes.result]
  by_cases hsuccess : c.result.isSuccessful = true
  · have hrun : ((p.settle ctx t Validation.full).runOn (.ofView parent.view)).1 = .ok st := by
      rw [hcomes.run]
    obtain ⟨reward, hreward⟩ := hp.rewarded (Accumulator.standsOn_ofView parent.view)
      parent.readable_view hrun (hcomes.result ▸ hsuccess)
    exact (hall reward hreward).stands_iff_spares hw.sound
  · refine iff_of_false ?_ fun h => hsuccess h.1
    intro h
    rw [SpeculativeContext.stands, Bool.and_eq_true] at h
    exact hsuccess h.2

/-- Whether the transaction at `index` is independent of those before it: run alone on the state of
the parent it succeeds, and it uses nothing that the sequential course has changed by then. -/
def IndependentAt (p : Processor) (archive : Archive) (block : Block) (parent : WorldState)
    (index : Nat) : Prop :=
  ∃ t before, block.transactions[index]? = some t ∧
    (p.processBlock archive (block.first index) .sequential).outcome = .ok before ∧
    p.Independent (block.context archive) t parent before.state

/-- What is taken over at an index that the course reaches is the context there, if it stands. -/
theorem takesOver_iff_stands (hp : p.Lawful)
    (hparent : archive.state? block.header.parentHash = some parent)
    (ht : block.transactions[index]? = some t)
    (hspec : schedule.speculative p archive (block.context archive) index t = some c)
    {b : BlockProgress}
    (hb : p.progressAfter archive block schedule parent index = (.ok (), b))
    (hstandsOn : b.world.StandsOn parent.view)
    (hgas : ¬ b.LacksGas (block.context archive) t) :
    (∃ c', p.TakesOver archive block schedule index c') ↔
      c.stands t block.header.beneficiary b.world = true := by
  constructor
  · rintro ⟨c', parent', t', b', result, world, hparent', ht', hspec', hb', -, hreconcile⟩
    obtain rfl : parent' = parent := Option.some.inj (hparent'.symm.trans hparent)
    obtain rfl : t' = t := Option.some.inj (ht'.symm.trans ht)
    obtain rfl : c' = c := Option.some.inj (hspec'.symm.trans hspec)
    obtain rfl : b' = b := (Prod.mk.inj (hb'.symm.trans hb)).2
    exact stands_of_merged hreconcile
  · exact fun hstands => ⟨c, takesOver_of_stands hp hparent ht hspec hb hstandsOn hgas
      (valid_of_speculative hp hparent hspec) hstands⟩

/-- The transactions taken over are the independent ones. -/
theorem takesOver_iff_independentAt (hp : p.Lawful)
    (hparent : archive.state? block.header.parentHash = some parent)
    (hnets : ∀ i c, p.TakesOver archive block schedule i c → ¬ c.Nets p block.header.beneficiary)
    (ht : block.transactions[index]? = some t)
    (hspec : schedule.speculative p archive (block.context archive) index t = some c)
    {b : BlockProgress}
    (hb : p.progressAfter archive block schedule parent index = (.ok (), b))
    (hgas : ¬ b.LacksGas (block.context archive) t) :
    (∃ c', p.TakesOver archive block schedule index c') ↔
      p.IndependentAt archive block parent index := by
  -- In lockstep the changes so far are those of the sequential course.
  have hlockstep := progressAfter_lockstep hp hparent index fun i _ => hnets i
  have hbefore : (p.processBlock archive (block.first index) .sequential).outcome = _ :=
    outcome_first hparent index
  rw [hb] at hlockstep
  rcases ha : p.progressAfter archive block .sequential parent index with ⟨answer, a⟩
  rw [ha] at hlockstep hbefore
  cases hlockstep with
  | running h =>
    have hbase : b.world.base = a.world.base := h.right.base.trans h.left.base.symm
    have hchanges : b.world.changes = a.world.changes :=
      (Accumulator.changes_eq_iff h.right.sound h.left.sound hbase).mpr h.values
    rw [takesOver_iff_stands hp hparent ht hspec hb h.right hgas]
    refine (stands_iff_independent hp (valid_of_speculative hp hparent hspec) h.right).trans ?_
    rw [hchanges]
    constructor
    · exact fun hindependent => ⟨t, _, ht, hbefore, hindependent⟩
    · rintro ⟨t', before, ht', hbefore', hindependent⟩
      obtain rfl : t' = t := Option.some.inj (ht'.symm.trans ht)
      obtain rfl := Except.ok.inj (hbefore'.symm.trans hbefore)
      exact hindependent

/-! ## Counters -/

/-- What a turn does to the counters. -/
structure Counted (b b' : BlockProgress) (takenOver : Bool) : Prop where
  parallelized : b'.tally.parallelized = b.tally.parallelized + takenOver.toNat
  replayed : b'.tally.replayed = b.tally.replayed + (!takenOver).toNat
  confirmed : b'.metrics.confirmed = b.metrics.confirmed + takenOver.toNat
  conflicting : b'.metrics.conflicting = b.metrics.conflicting + (!takenOver).toNat

theorem counted_addReceipt {b b' : BlockProgress} {takenOver : Bool} (h : Counted b b' takenOver)
    (result : ProcessingResult) : Counted b (b'.addReceipt result) takenOver := by
  unfold BlockProgress.addReceipt
  constructor
  · dsimp only
    split <;> exact h.parallelized
  · dsimp only
    split <;> exact h.replayed
  · exact h.confirmed
  · exact h.conflicting

theorem endTurn_ok {b b' : BlockProgress} {result : ProcessingResult}
    (h : b.endTurn index result = (.ok (), b')) : b' = b.addReceipt result := by
  unfold BlockProgress.endTurn at h
  split at h
  · cases h
  · exact (Prod.mk.inj h).2.symm

theorem standsOn_of_lockstep {view : WorldView} {x : Except BlockError Unit × BlockProgress}
    {b : BlockProgress} (h : BlockProgress.Lockstep view x (.ok (), b)) :
    b.world.StandsOn view := by
  cases h with
  | running hmatches => exact hmatches.right

/-- A turn with a context counts whether it stands. -/
theorem counted_processNext (hp : p.Lawful) {view : WorldView} (hr : view.Readable)
    {b b' : BlockProgress} (hb : b.world.StandsOn view) (hc : c.Valid p ctx t view)
    (hgas : ¬ b.LacksGas ctx t)
    (h : (p.processNext ctx (some c) index t).runOn b = (.ok (), b')) :
    Counted b b' (c.stands t ctx.beneficiary b.world) := by
  cases hstands : c.stands t ctx.beneficiary b.world with
  | true =>
    have hsuccess := ((SpeculativeContext.stands_iff hb.sound _).mp hstands).1
    obtain ⟨result, reward, settled, hrewarded⟩ := hc.rewarded hp hr hsuccess
    obtain ⟨credited, hreconcile, -, -⟩ := hrewarded.runOn_reconcile hr hb hstands
    rw [runOn_processNext_of_merged hgas hreconcile] at h
    rw [endTurn_ok h]
    exact counted_addReceipt ⟨rfl, rfl, rfl, rfl⟩ _
  | false =>
    have hnot : ¬ c.stands t ctx.beneficiary b.world = true := by
      rw [hstands]
      exact Bool.false_ne_true
    rw [runOn_processNext_of_replayed hgas
      (SpeculativeContext.runOn_reconcile_of_not_stands p hnot) (.inr rfl)] at h
    split at h
    · cases h
    · rw [endTurn_ok h]
      exact counted_addReceipt ⟨rfl, rfl, rfl, rfl⟩ _

/-- A course that goes through goes through up to every transaction. -/
theorem progressAfter_ok_of_le {count count' : Nat} (hle : count ≤ count') {b : BlockProgress}
    (h : p.progressAfter archive block schedule parent count' = (.ok (), b)) :
    ∃ b', p.progressAfter archive block schedule parent count = (.ok (), b') := by
  -- Induction on the distance: a turn that goes through starts from a course that did.
  induction hle generalizing b with
  | refl => exact ⟨b, h⟩
  | @step n _ ih =>
    cases ht : block.transactions[n]? with
    | none =>
      have hlength := List.getElem?_eq_none_iff.mp ht
      rw [progressAfter_of_length_le (Nat.le_succ_of_le hlength),
        ← progressAfter_of_length_le hlength] at h
      exact ih h
    | some t =>
      rw [progressAfter_succ ht] at h
      rcases hbefore : p.progressAfter archive block schedule parent n with ⟨answer, b'⟩
      rw [hbefore] at h
      cases answer with
      | error e => cases h
      | ok _ => exact ih hbefore

/-- A course that goes on after a transaction had the gas for it. -/
theorem not_lacksGas_of_progressAfter_ok {count : Nat} {b b' : BlockProgress}
    (ht : block.transactions[count]? = some t)
    (hb : p.progressAfter archive block schedule parent count = (.ok (), b))
    (h : p.progressAfter archive block schedule parent (count + 1) = (.ok (), b')) :
    ¬ b.LacksGas (block.context archive) t := by
  intro hlacks
  rw [progressAfter_succ ht, hb] at h
  simp only [runOn_processNext_of_lacksGas hlacks] at h
  cases h

/-- Where every context is there at its turn, what an accepted block takes over are its independent
transactions. -/
theorem takesOver_iff_independentAt_of_ok (hp : p.Lawful)
    (hparent : archive.state? block.header.parentHash = some parent)
    (hnets : ∀ i c, p.TakesOver archive block schedule i c → ¬ c.Nets p block.header.beneficiary)
    (hspec : ∀ i t, block.transactions[i]? = some t →
      ∃ c, schedule.speculative p archive (block.context archive) i t = some c)
    {b : BlockProgress}
    (h : p.progressAfter archive block schedule parent block.transactions.length = (.ok (), b))
    (index : Nat) :
    (∃ c, p.TakesOver archive block schedule index c) ↔
      p.IndependentAt archive block parent index := by
  cases ht : block.transactions[index]? with
  | none =>
    -- Past the end there is nothing to take over and nothing that could be independent.
    refine iff_of_false ?_ ?_
    · rintro ⟨c, parent', t, b', result, world, -, ht', -⟩
      rw [ht] at ht'
      cases ht'
    · rintro ⟨t, before, ht', -⟩
      rw [ht] at ht'
      cases ht'
  | some t =>
    obtain ⟨c, hc⟩ := hspec index t ht
    have hlt := (List.getElem?_eq_some_iff.mp ht).1
    obtain ⟨b₁, hnext⟩ := progressAfter_ok_of_le (Nat.succ_le_of_lt hlt) h
    obtain ⟨b₀, hbefore⟩ := progressAfter_ok_of_le (Nat.le_succ index) hnext
    have hgas := not_lacksGas_of_progressAfter_ok ht hbefore hnext
    exact takesOver_iff_independentAt hp hparent hnets ht hc hbefore hgas

open Classical in
/-- Where every context is there at its turn, an accepted block counts the transactions that it
takes over, and the others. -/
theorem counters_progressAfter (hp : p.Lawful)
    (hparent : archive.state? block.header.parentHash = some parent)
    (hnets : ∀ i c, p.TakesOver archive block schedule i c → ¬ c.Nets p block.header.beneficiary)
    (hspec : ∀ i t, block.transactions[i]? = some t →
      ∃ c, schedule.speculative p archive (block.context archive) i t = some c)
    {count : Nat} (hcount : count ≤ block.transactions.length) {b : BlockProgress}
    (h : p.progressAfter archive block schedule parent count = (.ok (), b)) :
    b.tally.parallelized =
        Nat.count (fun i => ∃ c, p.TakesOver archive block schedule i c) count ∧
      b.tally.parallelized + b.tally.replayed = count ∧
      b.metrics.confirmed = b.tally.parallelized ∧
      b.metrics.conflicting = b.tally.replayed := by
  induction count generalizing b with
  | zero =>
    obtain rfl := (Prod.mk.inj (progressAfter_zero.symm.trans h)).2
    exact ⟨rfl, rfl, rfl, rfl⟩
  | succ count ih =>
    have ht : block.transactions[count]? = some block.transactions[count] :=
      List.getElem?_eq_getElem _
    obtain ⟨c, hc⟩ := hspec count _ ht
    obtain ⟨b₀, hbefore⟩ := progressAfter_ok_of_le (Nat.le_succ count) h
    have hlockstep := progressAfter_lockstep hp hparent count fun i _ => hnets i
    rw [hbefore] at hlockstep
    have hstandsOn : b₀.world.StandsOn parent.view := standsOn_of_lockstep hlockstep
    have hgas := not_lacksGas_of_progressAfter_ok ht hbefore h
    rw [progressAfter_succ ht, hbefore, hc] at h
    -- The last turn counts one, and to the side on which its context stands.
    have hcounted := counted_processNext hp parent.readable_view hstandsOn
      (valid_of_speculative hp hparent hc) hgas h
    have htaken := takesOver_iff_stands hp hparent ht hc hbefore hstandsOn hgas
    obtain ⟨hparallelized, hsum, hconfirmed, hconflicting⟩ :=
      ih (Nat.le_of_succ_le hcount) hbefore
    rw [Nat.count_succ, ← hparallelized, hcounted.parallelized, hcounted.replayed,
      hcounted.confirmed, hcounted.conflicting, hconfirmed, hconflicting]
    have hboth : ∀ x : Bool, x.toNat + (!x).toNat = 1 := by decide
    have hone := hboth (c.stands block.transactions[count] (block.context archive).beneficiary
      b₀.world)
    refine ⟨?_, by omega, rfl, rfl⟩
    simp only [htaken]
    show _ + Bool.toNat (c.stands block.transactions[count] block.header.beneficiary b₀.world) = _
    cases c.stands block.transactions[count] block.header.beneficiary b₀.world <;> rfl

end Processor

end BlockExecution
