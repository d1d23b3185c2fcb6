/-
  Whole transactions of the slot processor.

  A transaction always ends. It is refused and changes nothing, or it runs and
  the beneficiary gets its reward; `Processed` says so in terms of values. From
  there: no nonce goes down, the sender's counts up by one, and only accounts
  with code get other slots.
-/
import BlockExecution.Proofs.Simple.Equivalence

namespace BlockExecution

open BlockExecution.Snapshot

/-! ## Rewards -/

namespace Processor

variable {p : Processor} {reward : Word} {u : Snapshot}

/-- The values after a reward. -/
def rewarded (p : Processor) (beneficiary : Address) (reward : Word) (u : Snapshot) : Snapshot :=
  u.setAccount beneficiary (p.credited reward (u.account beneficiary))

theorem ensures_creditReward (beneficiary : Address) (reward : Word) :
    (p.creditReward beneficiary reward).Ensures u fun _ v =>
      v = p.rewarded beneficiary reward u := by
  unfold creditReward rewarded credited
  split
  · exact .increaseBalance rfl
  · exact .pure (setAccount_eq_self u beneficiary).symm

/-- A reward is a credit, unless it is zero where empty accounts are deleted. -/
theorem rewarded_eq (beneficiary : Address) :
    p.rewarded beneficiary reward u =
      if reward = 0 ∧ p.config.clearEmptyAccounts = true then u
      else u.credit beneficiary reward := by
  unfold rewarded credited
  by_cases hskip : reward = 0 ∧ p.config.clearEmptyAccounts = true
  · have hnothing : ¬ (reward != 0 || !p.config.clearEmptyAccounts) = true := by
      simp [hskip.1, hskip.2]
    rw [if_neg hnothing, if_pos hskip, setAccount_eq_self]
  · have hcredit : (reward != 0 || !p.config.clearEmptyAccounts) = true := by
      by_contra hnot
      rw [Bool.or_eq_true, not_or, bne_iff_ne, not_not, Bool.not_eq_true', Bool.not_eq_false]
        at hnot
      exact hskip hnot
    rw [if_pos hcredit, if_neg hskip]
    rfl

end Processor

namespace Simple

variable {config : ProcessorConfig} {ctx : BlockContext} {t : Transaction} {v : Validation}
  {u final kept : Snapshot} {st : Settlement} {senderNonce : U64} {result : ProcessingResult}

/-! ## Transactions on values -/

/-- What becomes of a transaction together with its reward. -/
inductive Processed (config : ProcessorConfig) (ctx : BlockContext) (t : Transaction)
    (v : Validation) (u : Snapshot) : ProcessingResult → Snapshot → Prop
  | refused (fault : Rejection) : Processed config ctx t v u (.invalid (.simple fault)) u
  | ran {st : Settlement} {final kept : Snapshot} {reward : Word}
      (hstatic : staticFault config ctx.header t v = none)
      (hsender : senderFault t v ctx.blobGasPrice
        ((u.account t.request.sender).getD {}) = none)
      (h : Ran config ctx t ((u.account t.request.sender).getD {}).nonce u st final kept)
      (howed : st.reward = some reward) :
      Processed config ctx t v u st.result
        ((processor config).rewarded ctx.beneficiary reward final)

/-- Every transaction ends so. -/
theorem ensures_processed (config : ProcessorConfig) (ctx : BlockContext) (t : Transaction)
    (v : Validation) (u : Snapshot) :
    ((processor config).process ctx t v).Ensures u (Processed config ctx t v u) := by
  apply (ensures_settle config ctx t v u).bind
  intro st final hsettled
  cases hsettled with
  | refused fault => exact .pure (.refused fault)
  | ran hstatic hsender h =>
    obtain ⟨result, owed⟩ := st
    have howed := h.reward
    dsimp only at howed
    subst howed
    apply ((processor config).ensures_creditReward ctx.beneficiary _).bind
    rintro _ rewarded rfl
    exact .pure (.ran hstatic hsender h rfl)

/-! ## Nonces -/

theorem nonce_charged (r : TransactionRequest) (price : U128) (blobGasPrice : Word)
    (u : Snapshot) (a : Address) :
    (charged r price blobGasPrice u).nonce a =
      if a = r.sender then u.nonce a + 1 else u.nonce a := by
  unfold charged
  split
  · rename_i h
    rw [h]
    exact nonce_update_self _
  · rename_i h
    exact nonce_update_of_ne h _

theorem nonce_of_isFree {created : Address} (h : IsFree u created) : u.nonce created = 0 := by
  unfold IsFree at h
  unfold Snapshot.nonce
  cases hx : u.account created with
  | none => rfl
  | some x =>
    rw [hx, Option.any_some, Bool.or_eq_true, not_or, bne_iff_ne, not_not] at h
    exact h.1

/-- Moving the value changes a nonce only where a contract is created, which had none. -/
theorem nonce_moved {r : TransactionRequest} (senderNonce : U64) (u : Snapshot) (a : Address) :
    (moved r senderNonce u).nonce a =
      if r.recipient = none ∧ a = r.sender.created senderNonce then 1 else u.nonce a := by
  unfold moved
  cases r.recipient with
  | some recipient =>
    rw [nonce_credit, nonce_debit, if_neg fun h => by cases h.1]
  | none =>
    by_cases hcreated : a = r.sender.created senderNonce
    · rw [if_pos ⟨rfl, hcreated⟩, hcreated]
      exact nonce_update_self _
    · rw [if_neg fun h => hcreated h.2, nonce_update_of_ne hcreated, nonce_debit]

/-- A run in which the nonce of the sender does not wrap around counts it up by one and takes no
other nonce down. -/
theorem Ran.nonce_steps (h : Ran config ctx t senderNonce u st final kept)
    (hwrap : u.nonce t.request.sender + 1 ≠ 0) :
    final.nonce t.request.sender = u.nonce t.request.sender + 1 ∧
      ∀ a, a ≠ t.request.sender → u.nonce a ≤ final.nonce a := by
  cases hsuccess : st.result.isSuccessful with
  | false =>
    -- Of a failed body only the charge is left.
    have hfinal : ∀ a, final.nonce a = if a = t.request.sender then u.nonce a + 1
        else u.nonce a := by
      intro a
      rw [h.final, nonce_credit, h.undone hsuccess, nonce_charged]
    refine ⟨by rw [hfinal, if_pos rfl], fun a ha => ?_⟩
    rw [hfinal, if_neg ha]
    exact BitVec.le_refl _
  | true =>
    have hfinal := h.nonce_eq hsuccess
    simp only [nonce_moved, nonce_charged] at hfinal
    have hfree := h.free hsuccess
    constructor
    · rw [hfinal, if_pos rfl, if_neg]
      rintro ⟨hcreation, hcreated⟩
      -- A contract at the sender itself would need its new nonce to be zero.
      have hzero := nonce_of_isFree (hfree hcreation)
      rw [← hcreated, nonce_charged, if_pos rfl] at hzero
      exact hwrap hzero
    · intro a ha
      rw [hfinal, if_neg ha]
      split
      · rename_i hcreation
        have hzero := nonce_of_isFree (hfree hcreation.1)
        rw [← hcreation.2, nonce_charged, if_neg ha] at hzero
        rw [hzero]
        decide
      · exact BitVec.le_refl _

theorem nonce_rewarded (p : Processor) (beneficiary : Address) (reward : Word) (u : Snapshot)
    (a : Address) : (p.rewarded beneficiary reward u).nonce a = u.nonce a := by
  rw [Processor.rewarded_eq]
  split
  · rfl
  · exact nonce_credit _ _ _ _

/-- A transaction that went past the nonce check carries the nonce of its sender. -/
theorem nonce_of_senderFault {blobGasPrice : Word} {sender : Account} (hcheck : v.checkNonce = true)
    (h : senderFault t v blobGasPrice sender = none) : sender.nonce = t.request.nonce := by
  unfold senderFault at h
  dsimp only at h
  split_ifs at h with hnonce
  rw [hcheck, Bool.true_and, bne_iff_ne, not_not] at hnonce
  exact hnonce

theorem toNat_nonce_succ {n : U64} (h : n.toNat ≠ 2 ^ 64 - 1) : (n + 1).toNat = n.toNat + 1 := by
  have hlt := n.isLt
  apply BitVec.toNat_add_of_lt
  show n.toNat + 1 < 2 ^ 64
  omega

theorem nonce_succ_ne_zero {n : U64} (h : n.toNat ≠ 2 ^ 64 - 1) : n + 1 ≠ 0 := by
  intro hzero
  have hnat := toNat_nonce_succ h
  rw [hzero] at hnat
  exact Nat.succ_ne_zero _ hnat.symm

/-- What the nonces say of a transaction that was executed. -/
structure CountsUp (t : Transaction) (u v : Snapshot) : Prop where
  before : u.nonce t.request.sender = t.request.nonce
  after : v.nonce t.request.sender = t.request.nonce + 1
  mono : ∀ a, u.nonce a ≤ v.nonce a

theorem Processed.countsUp (h : Processed config ctx t v u result final)
    (hcheck : v.checkNonce = true) (hexecuted : result.rejection? = none)
    (hnonce : t.request.nonce.toNat ≠ 2 ^ 64 - 1) : CountsUp t u final := by
  cases h with
  | refused fault => cases hexecuted
  | ran hstatic hsender h howed =>
    have hbefore : u.nonce t.request.sender = t.request.nonce :=
      nonce_of_senderFault hcheck hsender
    have hsucc := toNat_nonce_succ hnonce
    have hwrap : u.nonce t.request.sender + 1 ≠ 0 := hbefore ▸ nonce_succ_ne_zero hnonce
    obtain ⟨hself, hothers⟩ := h.nonce_steps hwrap
    refine ⟨hbefore, by rw [nonce_rewarded, hself, hbefore], fun a => ?_⟩
    rw [nonce_rewarded]
    by_cases ha : a = t.request.sender
    · -- The sender's nonce does not wrap around, so counting up is not going down.
      subst ha
      rw [hself, hbefore, BitVec.le_def, hsucc]
      exact Nat.le_succ _
    · exact hothers a ha

/-! ## Slots -/

theorem hasCode_credit {a b : Address} {amount : Word}
    (h : (u.account a).any (·.hasCode) = true) :
    ((u.credit b amount).account a).any (·.hasCode) = true := by
  by_cases hab : a = b
  · subst hab
    cases hx : u.account a with
    | none =>
      rw [hx] at h
      cases h
    | some x =>
      rw [Snapshot.credit, account_update_self, hx]
      rw [hx] at h
      exact h
  · rw [Snapshot.credit, account_update_of_ne hab]
    exact h

theorem SlotsOfCode.credit (h : SlotsOfCode u kept) (a : Address) (amount : Word) :
    SlotsOfCode u (kept.credit a amount) :=
  fun k hk => hasCode_credit (h k hk)

/-- A transaction changes slots of accounts with code alone. -/
theorem Processed.slotsOfCode (h : Processed config ctx t v u result final) :
    SlotsOfCode u final := by
  cases h with
  | refused fault => exact slotsOfCode_of_slot_eq rfl
  | @ran st final kept reward hstatic hsender h howed =>
    have hfinal : SlotsOfCode u final := by
      rw [h.final]
      exact h.slots.credit _ _
    rw [Processor.rewarded_eq]
    split
    · exact hfinal
    · exact hfinal.credit _ _

/-- The slots of an account that is not there afterwards are as they were. -/
theorem Processed.slot_eq_of_absent (h : Processed config ctx t v u result final)
    {k : StorageKey} (habsent : final.account k.address = none) : final.slot k = u.slot k := by
  by_contra hne
  have hcode := h.slotsOfCode k hne
  rw [habsent] at hcode
  cases hcode

/-! ## Turns of a block -/

variable {archive : Archive} {block : Block} {schedule : Schedule} {parent : WorldState}

/-- In every schedule the accumulator stays in order, and its values go in lockstep with the
sequential ones. -/
theorem values_progressAfter (hparent : archive.state? block.header.parentHash = some parent)
    {count : Nat} {b : BlockProgress}
    (h : (processor config).progressAfter archive block schedule parent count = (.ok (), b)) :
    b.world.StandsOn parent.view ∧
    ∃ a, (processor config).progressAfter archive block .sequential parent count = (.ok (), a) ∧
      a.world.StandsOn parent.view ∧ a.world.values = b.world.values := by
  have hlockstep : BlockProgress.Lockstep parent.view
      ((processor config).progressAfter archive block .sequential parent count)
      ((processor config).progressAfter archive block schedule parent count) :=
    Processor.progressAfter_lockstep (lawful_processor config) hparent count
      fun _ _ _ => not_nets_of_takesOver
  rw [h] at hlockstep
  -- The block goes on in this schedule, so it goes on in sequence too.
  generalize (processor config).progressAfter archive block .sequential parent count = x
    at hlockstep
  cases hlockstep with
  | @running a _ hmatches =>
    exact ⟨hmatches.right, a, rfl, hmatches.left, hmatches.values.symm⟩

/-- A turn of a block that goes on does to the values what its transaction does, whether it is
executed at its turn or taken over. -/
theorem processed_progressAfter (hparent : archive.state? block.header.parentHash = some parent)
    {count : Nat} (ht : block.transactions[count]? = some t) {b b' : BlockProgress}
    (hb : (processor config).progressAfter archive block schedule parent count = (.ok (), b))
    (hb' : (processor config).progressAfter archive block schedule parent (count + 1) =
      (.ok (), b')) :
    ∃ result, result.rejection? = none ∧ Processed config (block.context archive) t .full
      b.world.values result b'.world.values := by
  -- The sequential run has the same values at both ends, and there a turn is a transaction.
  obtain ⟨-, a, ha, hstands, hvalues⟩ := values_progressAfter hparent hb
  obtain ⟨-, a', ha', -, hvalues'⟩ := values_progressAfter hparent hb'
  rw [Processor.progressAfter_succ ht, ha] at ha'
  obtain ⟨-, result, world, hrun, hexecuted, rfl⟩ := Processor.processNext_none_ok ha'
  obtain ⟨answer, world', hrun', -, hprocessed⟩ :=
    ensures_processed config (block.context archive) t .full a.world.values a.world
      hstands.sound (hstands.base ▸ parent.readable_view) rfl
  rw [hrun, Prod.mk.injEq, Except.ok.injEq] at hrun'
  obtain ⟨rfl, rfl⟩ := hrun'
  refine ⟨result, hexecuted, ?_⟩
  rw [← hvalues, ← hvalues']
  exact hprocessed

end Simple

end BlockExecution
