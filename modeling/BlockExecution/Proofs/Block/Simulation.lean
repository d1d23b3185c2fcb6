/-
  Parallel and sequential processing in lockstep.

  The relation between the two courses is that their accumulators have the same
  values, and their receipts, gas and counts of successes and failures agree; what
  is loaded and noted may differ. A turn keeps it, unless it takes over a context
  that nets, and by induction so does every course without such a turn.
-/
import BlockExecution.Proofs.Block.Run
import BlockExecution.Proofs.Speculation.Merge

namespace BlockExecution

open BlockExecution.Snapshot

variable {p : Processor} {archive : Archive} {block : Block} {schedule : Schedule}
  {parent : WorldState} {ctx : BlockContext} {t : Transaction} {index : Nat}
  {spec : Option SpeculativeContext} {view : WorldView}

/-! ## The relation -/

namespace BlockProgress

variable {a b : BlockProgress} {v w : Accumulator} {result result' : ProcessingResult}

/-- What the progress `b` of a parallel course has in common with the progress `a` of the
sequential one. -/
structure Matches (view : WorldView) (a b : BlockProgress) : Prop where
  left : a.world.StandsOn view
  right : b.world.StandsOn view
  values : b.world.values = a.world.values
  receipts : b.receipts = a.receipts
  gasUsed : b.gasUsed = a.gasUsed
  successful : b.tally.successful = a.tally.successful
  failed : b.tally.failed = a.tally.failed

theorem matches_start (view : WorldView) :
    Matches view { world := .ofView view } { world := .ofView view } where
  left := Accumulator.standsOn_ofView view
  right := Accumulator.standsOn_ofView view
  values := rfl
  receipts := rfl
  gasUsed := rfl
  successful := rfl
  failed := rfl

/-- Both courses went on, or both stopped at the same error. -/
inductive Lockstep (view : WorldView) :
    Except BlockError Unit × BlockProgress → Except BlockError Unit × BlockProgress → Prop
  | running {a b : BlockProgress} (h : Matches view a b) : Lockstep view (.ok (), a) (.ok (), b)
  | stopped (e : BlockError) (a b : BlockProgress) : Lockstep view (.error e, a) (.error e, b)

/-- Deciding where results come from touches nothing that is compared, and the accumulators may
be replaced by others of equal values. -/
theorem Matches.reconciled (h : Matches view a b) (hv : v.StandsOn view) (hw : w.StandsOn view)
    (hvalues : w.values = v.values) (r r' : Reconciliation) (v' w' : Accumulator) :
    Matches view { a.reconciled v' r with world := v } { b.reconciled w' r' with world := w } where
  left := hv
  right := hw
  values := hvalues
  receipts := by cases r <;> cases r' <;> exact h.receipts
  gasUsed := by cases r <;> cases r' <;> exact h.gasUsed
  successful := by cases r <;> cases r' <;> exact h.successful
  failed := by cases r <;> cases r' <;> exact h.failed

theorem Matches.addReceipt (h : Matches view a b) (hstatus : result'.status = result.status)
    (hgas : result'.gasUsed = result.gasUsed) (hlogs : result'.logs = result.logs) :
    Matches view (a.addReceipt result) (b.addReceipt result') := by
  have hsuccess : result'.isSuccessful = result.isSuccessful := by
    unfold ProcessingResult.isSuccessful
    rw [hstatus]
  constructor
  · exact h.left.commit
  · exact h.right.commit
  · exact h.values
  · show b.receipts ++ [_] = a.receipts ++ [_]
    rw [h.receipts, h.gasUsed, hsuccess, hgas, hlogs]
  · show b.gasUsed + result'.gasUsed = a.gasUsed + result.gasUsed
    rw [h.gasUsed, hgas]
  · simp only [BlockProgress.addReceipt, hsuccess]
    split
    · exact congrArg (· + 1) h.successful
    · exact h.successful
  · simp only [BlockProgress.addReceipt, hsuccess]
    split
    · exact h.failed
    · exact congrArg (· + 1) h.failed

theorem Matches.endTurn (h : Matches view a b) (hstatus : result'.status = result.status)
    (hgas : result'.gasUsed = result.gasUsed) (hlogs : result'.logs = result.logs)
    (index : Nat) : Lockstep view (a.endTurn index result) (b.endTurn index result') := by
  have hrejection : result'.rejection? = result.rejection? := by
    unfold ProcessingResult.rejection?
    rw [hstatus]
  unfold BlockProgress.endTurn
  rw [hrejection]
  cases result.rejection? with
  | none => exact .running (h.addReceipt hstatus hgas hlogs)
  | some reason => exact .stopped _ _ _

end BlockProgress

open BlockProgress

/-! ## Turns -/

namespace Processor

variable {a b : BlockProgress} {w : Accumulator} {r : Reconciliation}

/-- A transaction executed at its turn in both courses. -/
theorem processNext_lockstep_of_replayed (hp : p.Lawful) (hr : view.Readable)
    (h : Matches view a b) (hgas : ¬ b.LacksGas ctx t)
    (hreconcile : (p.reconcile ctx.beneficiary t spec).runOn b.world = (.ok r, w))
    (hreplayed : r = .missing ∨ r = .discarded) (hw : w.StandsOn view)
    (hvalues : w.values = b.world.values) :
    Lockstep view ((p.processNext ctx none index t).runOn a)
      ((p.processNext ctx spec index t).runOn b) := by
  have hgas' : ¬ a.LacksGas ctx t := by
    unfold LacksGas at hgas ⊢
    rwa [← h.gasUsed]
  have hsame : w.values = a.world.values := hvalues.trans h.values
  -- On equal values it answers alike and leaves equal values.
  obtain ⟨hanswer, hafter⟩ :=
    hp.process_congr ctx t Validation.full h.left hr hw hr hsame
  have ha := hp.standsOn_process ctx t Validation.full h.left hr
  have hb := hp.standsOn_process ctx t Validation.full hw hr
  rw [runOn_processNext_of_replayed hgas'
      (SpeculativeContext.runOn_reconcile_none p ctx.beneficiary t a.world) (.inl rfl),
    runOn_processNext_of_replayed hgas hreconcile hreplayed]
  rcases hleft : (p.process ctx t Validation.full).runOn a.world with ⟨answer, a'⟩
  rcases hright : (p.process ctx t Validation.full).runOn w with ⟨answer', b'⟩
  rw [hleft] at hanswer hafter ha
  rw [hright] at hanswer hafter hb
  obtain rfl : answer' = answer := hanswer
  cases answer' with
  | error e => exact .stopped _ _ _
  | ok result => exact (h.reconciled ha hb hafter _ _ _ _).endTurn rfl rfl rfl index

/-- A turn that takes over a context that stands: the other course executes the transaction with
the same result, and the values differ exactly when the context nets. -/
theorem processNext_of_stands (hp : p.Lawful) (hr : view.Readable) (index : Nat)
    (h : Matches view a b) (hgas : ¬ b.LacksGas ctx t) {c : SpeculativeContext}
    (hc : c.Valid p ctx t view)
    (hstands : c.stands t ctx.beneficiary b.world = true) :
    ∃ a' b', (p.processNext ctx none index t).runOn a = (.ok (), a') ∧
      (p.processNext ctx (some c) index t).runOn b = (.ok (), b') ∧
      a'.world.StandsOn view ∧ b'.world.StandsOn view ∧
      (b'.world.values = a'.world.values → ¬ c.Nets p ctx.beneficiary) ∧
      (¬ c.Nets p ctx.beneficiary → Matches view a' b') := by
  have hsuccess : c.result.isSuccessful = true :=
    ((SpeculativeContext.stands_iff h.right.sound _).mp hstands).1
  obtain ⟨result, reward, settled, hrewarded⟩ := hc.rewarded hp hr hsuccess
  obtain ⟨v, w, hprocess, hreconcile, hw, hoff, hben⟩ :=
    hrewarded.merge hp hr h.left h.right h.values hstands
  -- The replay is a run of the lawful processor, so its accumulator stays in order.
  have hv : v.StandsOn view := by
    have hstands' := hp.standsOn_process ctx t Validation.full h.left hr
    rwa [hprocess] at hstands'
  have hgas' : ¬ a.LacksGas ctx t := by
    unfold LacksGas at hgas ⊢
    rwa [← h.gasUsed]
  rw [hrewarded.result] at hsuccess
  have hleft : (p.processNext ctx none index t).runOn a = _ :=
    runOn_processNext_of_replayed hgas'
      (SpeculativeContext.runOn_reconcile_none p ctx.beneficiary t a.world) (.inl rfl)
  rw [hprocess] at hleft
  simp only [endTurn_of_successful hsuccess] at hleft
  have hright : (p.processNext ctx (some c) index t).runOn b = _ :=
    runOn_processNext_of_merged hgas hreconcile
  have hmerged : ({ result with inParallel := true } : ProcessingResult).isSuccessful = true :=
    hsuccess
  rw [endTurn_of_successful hmerged] at hright
  refine ⟨_, _, hleft, hright, hv.commit, hw.commit, ?_, ?_⟩
  · intro hvalues
    apply hben.mp
    have hsame : w.values = v.values := hvalues
    rw [hsame]
  · intro hnets
    -- Off the beneficiary they agree in any case.
    have hon : AgreeOn {.account ctx.beneficiary} w.values v.values := by
      rintro d rfl
      exact hben.mpr hnets
    exact (h.reconciled hv hw (hon.eq hoff) .missing
      (.merged { result with inParallel := true }) a.world w).addReceipt rfl rfl rfl

/-- A turn keeps the relation, unless it takes over a context that nets. -/
theorem processNext_lockstep (hp : p.Lawful) (hr : view.Readable) (h : Matches view a b)
    (hvalid : ∀ c, spec = some c → c.Valid p ctx t view)
    (hnets : ∀ c, spec = some c → ¬ b.LacksGas ctx t →
      c.stands t ctx.beneficiary b.world = true → ¬ c.Nets p ctx.beneficiary) :
    Lockstep view ((p.processNext ctx none index t).runOn a)
      ((p.processNext ctx spec index t).runOn b) := by
  by_cases hgas : b.LacksGas ctx t
  · have hgas' : a.LacksGas ctx t := by
      unfold LacksGas at hgas ⊢
      rwa [← h.gasUsed]
    rw [runOn_processNext_of_lacksGas hgas, runOn_processNext_of_lacksGas hgas', h.gasUsed]
    exact .stopped _ _ _
  · cases hspec : spec with
    | none =>
      exact processNext_lockstep_of_replayed hp hr h hgas
        (SpeculativeContext.runOn_reconcile_none p _ t _) (.inl rfl) h.right rfl
    | some c =>
      have hc := hvalid c hspec
      by_cases hstands : c.stands t ctx.beneficiary b.world = true
      · obtain ⟨a', b', hleft, hright, -, -, -, hmatches⟩ :=
          processNext_of_stands hp hr index h hgas hc hstands
        rw [hleft, hright]
        exact .running (hmatches (hnets c hspec hgas hstands))
      · -- A discarded context leaves entries behind, but no value.
        have hbase : c.world.base = b.world.base := hc.standsOn.base.trans h.right.base.symm
        exact processNext_lockstep_of_replayed hp hr h hgas
          (SpeculativeContext.runOn_reconcile_of_not_stands p hstands) (.inr rfl)
          (h.right.importPrior hc.standsOn)
          (Accumulator.values_importPrior hc.standsOn.sound hbase)

/-- What a turn without a speculative execution comes to if the block goes on. -/
theorem processNext_none_ok {b' : BlockProgress}
    (h : (p.processNext ctx none index t).runOn b = (.ok (), b')) :
    ¬ b.LacksGas ctx t ∧ ∃ result world,
      (p.process ctx t Validation.full).runOn b.world = (.ok result, world) ∧
      result.rejection? = none ∧
      b' = ({ b.reconciled b.world .missing with world } : BlockProgress).addReceipt result := by
  by_cases hgas : b.LacksGas ctx t
  · rw [runOn_processNext_of_lacksGas hgas] at h
    cases h
  · rw [runOn_processNext_of_replayed hgas
      (SpeculativeContext.runOn_reconcile_none p ctx.beneficiary t b.world) (.inl rfl)] at h
    refine ⟨hgas, ?_⟩
    rcases hrun : (p.process ctx t Validation.full).runOn b.world with ⟨answer, world⟩
    rw [hrun] at h
    cases answer with
    | error e => cases h
    | ok result =>
      dsimp only [endTurn] at h
      cases hrejection : result.rejection? with
      | some reason =>
        rw [hrejection] at h
        cases h
      | none =>
        rw [hrejection] at h
        exact ⟨result, world, rfl, hrejection, (Prod.mk.inj h).2.symm⟩

/-! ## Courses -/

/-- Whether the transaction at `index` is taken over from the speculative execution `c`: the block
gets there, and reconciling `c` merges it. -/
def TakesOver (p : Processor) (archive : Archive) (block : Block) (schedule : Schedule)
    (index : Nat) (c : SpeculativeContext) : Prop :=
  ∃ parent t b result world,
    archive.state? block.header.parentHash = some parent ∧
    block.transactions[index]? = some t ∧
    schedule.speculative p archive (block.context archive) index t = some c ∧
    p.progressAfter archive block schedule parent index = (.ok (), b) ∧
    ¬ b.LacksGas (block.context archive) t ∧
    (p.reconcile block.header.beneficiary t (some c)).runOn b.world =
      (.ok (.merged result), world)

theorem takesOver_of_stands {c : SpeculativeContext} (hp : p.Lawful)
    (hparent : archive.state? block.header.parentHash = some parent)
    (ht : block.transactions[index]? = some t)
    (hspec : schedule.speculative p archive (block.context archive) index t = some c)
    (hb : p.progressAfter archive block schedule parent index = (.ok (), b))
    (hstandsOn : b.world.StandsOn parent.view)
    (hgas : ¬ b.LacksGas (block.context archive) t)
    (hc : c.Valid p (block.context archive) t parent.view)
    (hstands : c.stands t block.header.beneficiary b.world = true) :
    p.TakesOver archive block schedule index c := by
  have hsuccess : c.result.isSuccessful = true :=
    ((SpeculativeContext.stands_iff hstandsOn.sound _).mp hstands).1
  obtain ⟨result, reward, settled, hrewarded⟩ :=
    hc.rewarded hp parent.readable_view hsuccess
  obtain ⟨credited, hreconcile, -, -⟩ :=
    hrewarded.runOn_reconcile parent.readable_view hstandsOn hstands
  exact ⟨parent, t, b, _, _, hparent, ht, hspec, hb, hgas, hreconcile⟩

theorem stands_of_merged {c : SpeculativeContext} {world : Accumulator}
    {result : ProcessingResult} {beneficiary : Address}
    (h : (p.reconcile beneficiary t (some c)).runOn w = (.ok (.merged result), world)) :
    c.stands t beneficiary w = true := by
  by_contra hnot
  rw [SpeculativeContext.runOn_reconcile_of_not_stands p hnot] at h
  cases h

theorem valid_of_speculative {c : SpeculativeContext} (hp : p.Lawful)
    (hparent : archive.state? block.header.parentHash = some parent)
    (h : schedule.speculative p archive (block.context archive) index t = some c) :
    c.Valid p (block.context archive) t parent.view := by
  cases schedule with
  | sequential => cases h
  | parallel finished =>
    simp only [Schedule.speculative] at h
    split at h
    · exact SpeculativeContext.valid_of_speculate hp hparent h
    · cases h

/-- The courses go in lockstep as long as no context that nets is taken over. -/
theorem progressAfter_lockstep (hp : p.Lawful)
    (hparent : archive.state? block.header.parentHash = some parent) (count : Nat)
    (hnets : ∀ i < count, ∀ c, p.TakesOver archive block schedule i c →
      ¬ c.Nets p block.header.beneficiary) :
    Lockstep parent.view (p.progressAfter archive block .sequential parent count)
      (p.progressAfter archive block schedule parent count) := by
  induction count with
  | zero => exact .running (matches_start parent.view)
  | succ count ih =>
    -- Induction on the number of turns: the last one is a step from courses in lockstep.
    have hbefore := ih fun i hi => hnets i (Nat.lt_succ_of_lt hi)
    cases ht : block.transactions[count]? with
    | none =>
      have hlength := List.getElem?_eq_none_iff.mp ht
      rw [progressAfter_of_length_le hlength, progressAfter_of_length_le hlength] at hbefore
      rw [progressAfter_of_length_le (Nat.le_succ_of_le hlength),
        progressAfter_of_length_le (Nat.le_succ_of_le hlength)]
      exact hbefore
    | some t =>
      rw [progressAfter_succ ht, progressAfter_succ ht]
      rcases hleft : p.progressAfter archive block .sequential parent count with ⟨answer, a⟩
      rcases hright : p.progressAfter archive block schedule parent count with ⟨answer', b⟩
      rw [hleft, hright] at hbefore
      cases hbefore with
      | stopped e => exact .stopped _ _ _
      | running h =>
        apply processNext_lockstep hp parent.readable_view h
        · exact fun c hc => valid_of_speculative hp hparent hc
        · intro c hc hgas hstands
          exact hnets count (Nat.lt_succ_self count) c
            (takesOver_of_stands hp hparent ht hc hright h.right hgas
              (valid_of_speculative hp hparent hc) hstands)

end Processor

end BlockExecution
