/-
  Under the slot processor every schedule computes the same block.

  A successful transaction counts up the nonce of its sender, and takes nothing
  from anyone else. An address at which the speculation left, together with the
  reward, what it found has thus got nothing, so crediting its reward again is
  without effect: the slot processor never nets.
-/
import BlockExecution.Proofs.Block.Equivalence
import BlockExecution.Proofs.Simple.Settlement
import BlockExecution.Proofs.State.Supply

namespace BlockExecution

namespace Simple

open BlockExecution.Snapshot

variable {config : ProcessorConfig} {ctx : BlockContext} {t : Transaction} {v : Validation}
  {u final kept : Snapshot} {st : Settlement} {senderNonce : U64}

/-! ## A successful transaction -/

theorem cleared_eq (config : ProcessorConfig) (r : TransactionRequest) (senderNonce : U64)
    (u : Snapshot) (b : Address) :
    (cleared config r senderNonce u).nonce b = u.nonce b ∧
      (cleared config r senderNonce u).balance b = u.balance b := by
  unfold cleared
  split
  · exact clear_eq u _ b
  · exact ⟨rfl, rfl⟩

/-- After a success, nonces are those of the body. -/
theorem Ran.nonce_eq (h : Ran config ctx t senderNonce u st final kept)
    (hsuccess : st.result.isSuccessful = true) (a : Address) :
    final.nonce a = (moved t.request senderNonce (charged t.request
      (t.effectiveGasPrice ctx.header.basePrice) ctx.blobGasPrice u)).nonce a := by
  rw [h.final, nonce_credit]
  refine Eq.trans ?_ (cleared_eq config t.request senderNonce _ a).1
  unfold Snapshot.nonce
  rw [h.accounts hsuccess]

/-- After a success, nobody has less than after the body. -/
theorem Ran.balance_le (h : Ran config ctx t senderNonce u st final kept)
    (hsuccess : st.result.isSuccessful = true) (a : Address) :
    ((moved t.request senderNonce (charged t.request
      (t.effectiveGasPrice ctx.header.basePrice) ctx.blobGasPrice u)).balance a).toNat ≤
        (final.balance a).toNat := by
  rw [h.final, ← (cleared_eq config t.request senderNonce _ a).2]
  refine le_trans (le_of_eq ?_) (balance_le_credit kept _ _ _)
  unfold Snapshot.balance
  rw [h.accounts hsuccess]

theorem nonce_add_one_ne (n : U64) : n + 1 ≠ n := by
  intro h
  have hword := congrArg BitVec.toNat h
  have hlt := n.isLt
  have hone : (1 : U64).toNat = 1 := rfl
  rw [BitVec.toNat_add, hone] at hword
  omega

/-- A successful transaction leaves its sender another nonce. -/
theorem Ran.nonce_sender_ne (h : Ran config ctx t senderNonce u st final kept)
    (hsuccess : st.result.isSuccessful = true) :
    final.nonce t.request.sender ≠ u.nonce t.request.sender := by
  rw [h.nonce_eq hsuccess]
  -- The charge counts the nonce up, and a call leaves it there.
  have hcharged : ∀ price blobGasPrice,
      (charged t.request price blobGasPrice u).nonce t.request.sender =
        u.nonce t.request.sender + 1 := fun _ _ => nonce_update_self _
  unfold moved
  cases hr : t.request.recipient with
  | some recipient =>
    rw [nonce_credit, nonce_debit, hcharged]
    exact nonce_add_one_ne _
  | none =>
    dsimp only
    by_cases hself : t.request.sender = t.request.sender.created senderNonce
    · -- The new contract can stand at the sender only where the nonce wrapped around to zero.
      have hfree := h.free hsuccess hr
      have hzero : u.nonce t.request.sender + 1 = 0 := by
        unfold IsFree at hfree
        rw [← hself, charged, account_update_self] at hfree
        by_contra hne
        apply hfree
        simp only [Option.any_some, Bool.or_eq_true]
        exact .inl (bne_iff_ne.mpr hne)
      rw [← hself, nonce_update_self]
      show (1 : U64) ≠ u.nonce t.request.sender
      intro hone
      rw [← hone] at hzero
      exact absurd hzero (by decide)
    · rw [nonce_update_of_ne hself, nonce_debit, hcharged]
      exact nonce_add_one_ne _

/-- A successful transaction takes from its sender alone. -/
theorem Ran.balance_le_of_ne (h : Ran config ctx t senderNonce u st final kept)
    (hsuccess : st.result.isSuccessful = true) {a : Address} (ha : a ≠ t.request.sender) :
    (u.balance a).toNat ≤ (final.balance a).toNat := by
  refine le_trans ?_ (h.balance_le hsuccess a)
  -- Charge and value come from the sender.
  have hpaid : ∀ price blobGasPrice,
      ((charged t.request price blobGasPrice u).debit t.request.sender t.request.value).balance
        a = u.balance a := by
    intro price blobGasPrice
    rw [debit, balance_update_of_ne ha, charged, balance_update_of_ne ha]
  unfold moved
  cases t.request.recipient with
  | some recipient =>
    refine le_trans (le_of_eq ?_) (balance_le_credit _ _ _ _)
    rw [hpaid]
  | none =>
    dsimp only
    by_cases hcreated : a = t.request.sender.created senderNonce
    · rw [← hpaid (t.effectiveGasPrice ctx.header.basePrice) ctx.blobGasPrice, ← hcreated,
        balance_update_self]
      exact le_satAdd _ _
    · rw [balance_update_of_ne hcreated, hpaid]

/-! ## No transaction nets -/

theorem lawful_processor (config : ProcessorConfig) : (processor config).Lawful := by
  apply Processor.Lawful.of_local (local_settle config)
  intro view w ctx t v st hw hr hrun hsuccess
  obtain ⟨st', w', hrun', -, hsettled⟩ :=
    ensures_settle config ctx t v w.values w hw.sound (hw.base ▸ hr) rfl
  have hanswer : st' = st := by
    have hboth : ((processor config).settle ctx t v).runOn w = (.ok st', w') := hrun'
    rw [hboth] at hrun
    exact Except.ok.inj hrun
  subst hanswer
  obtain ⟨kept, h⟩ := hsettled.ran_of_successful hsuccess
  exact ⟨_, h.reward⟩

/-- A credit that comes to nothing more than what was there before is without effect there. -/
theorem credited_of_balance_le {p : Processor} {reward : Word} {found left : Option Account}
    (h : p.credited reward left = found)
    (hle : (found.getD {}).balance.toNat ≤ (left.getD {}).balance.toNat) :
    p.credited reward found = found := by
  unfold Processor.credited at h ⊢
  split
  · rename_i hcredit
    rw [if_pos hcredit] at h
    subst h
    simp only [Option.getD_some] at hle ⊢
    have hsame : satAdd (left.getD {}).balance reward = (left.getD {}).balance := by
      apply BitVec.eq_of_toNat_eq
      exact le_antisymm hle (le_satAdd _ _)
    rw [hsame, hsame]
  · rfl

/-- No successful transaction of the slot processor nets. -/
theorem not_nets {view : WorldView} (hr : view.Readable) {c : SpeculativeContext}
    {result : ProcessingResult} {reward : Word} {settled : Accumulator}
    (hc : c.Rewarded (processor config) ctx t view result reward settled)
    (hsuccess : result.isSuccessful = true) :
    ¬ c.Nets (processor config) ctx.beneficiary := by
  rintro ⟨htouched, hunchanged, hne⟩
  obtain ⟨st, w', hrun, -, hsettled⟩ := ensures_settle config ctx t Validation.full view.values
    (.ofView view) (Accumulator.sound_ofView view) hr (Accumulator.values_ofView view)
  have hboth : ((processor config).settle ctx t Validation.full).runOn (.ofView view) =
      (.ok st, w') := hrun
  rw [hc.run, Prod.mk.injEq, Except.ok.injEq] at hboth
  obtain ⟨rfl, rfl⟩ := hboth
  obtain ⟨kept, h⟩ := hsettled.ran_of_successful hsuccess
  have hworld := hc.valuesOfTouched htouched
  -- With the reward, the beneficiary is as the view has it.
  have hfound : (processor config).credited reward (settled.values.account ctx.beneficiary) =
      view.values.account ctx.beneficiary := by
    rw [← account_setAccount_self settled.values ctx.beneficiary
      ((processor config).credited reward (settled.values.account ctx.beneficiary)), ← hworld,
      ← hc.standsOn.base]
    exact Accumulator.agreeAt_base_of_not_changed hunchanged
  apply hne
  rw [hc.owed, hc.standsOn.base]
  apply credited_of_balance_le hfound
  have hnonce : view.values.nonce ctx.beneficiary = settled.values.nonce ctx.beneficiary := by
    unfold Snapshot.nonce
    rw [← hfound]
    unfold Processor.credited
    split <;> rfl
  -- The reward changes no nonce, so the beneficiary is not the sender.
  have hother : ctx.beneficiary ≠ t.request.sender := by
    intro heq
    rw [heq] at hnonce
    exact h.nonce_sender_ne hsuccess hnonce.symm
  exact h.balance_le_of_ne hsuccess hother

/-! ## Every schedule computes the same block -/

theorem not_nets_of_takesOver {archive : Archive} {block : Block} {schedule : Schedule}
    {index : Nat} {c : SpeculativeContext}
    (h : (processor config).TakesOver archive block schedule index c) :
    ¬ c.Nets (processor config) block.header.beneficiary := by
  obtain ⟨parent, t, b, result, world, hparent, ht, hspec, hb, hgas, hreconcile⟩ := h
  have hp := lawful_processor config
  have hvalid := Processor.valid_of_speculative hp hparent hspec
  have hstands := Processor.stands_of_merged hreconcile
  have hsuccess : c.result.isSuccessful = true := by
    rw [SpeculativeContext.stands, Bool.and_eq_true] at hstands
    exact hstands.2
  obtain ⟨result', reward, settled, hrewarded⟩ :=
    hvalid.rewarded hp parent.readable_view hsuccess
  rw [hrewarded.result] at hsuccess
  exact not_nets parent.readable_view hrewarded hsuccess

/-- Processing in parallel, with any set of speculative executions finished in time, gives what
processing in sequence gives: the same error, or the same block hash, changes, state, receipts, gas
and numbers of successful and failed transactions. -/
theorem processBlock_parallel_agrees (config : ProcessorConfig) (archive : Archive)
    (block : Block) (finished : Nat → Bool) :
    OutcomesAgree ((processor config).processBlock archive block .sequential).outcome
      ((processor config).processBlock archive block (.parallel finished)).outcome :=
  Processor.outcomesAgree_of_not_nets (lawful_processor config) fun _ _ => not_nets_of_takesOver

end Simple

end BlockExecution
