/-
  Transactions with a recipient.

  Such a transaction creates no contract. If it passes its checks, it counts the
  nonce of its sender up and changes no other, changes no code, and takes from
  nobody more than its sender was asked to cover. Its body is the instruction
  stream if the recipient holds code and nothing more than the transfer otherwise.
-/
import BlockExecution.Proofs.Simple.Conservation
import BlockExecution.Proofs.Simple.Meaning

namespace BlockExecution

open BlockExecution.Snapshot

/-! ## Code and balances of snapshots -/

namespace Snapshot

variable {u v w : Snapshot} {a b : Address} {m n : Nat}

/-- The hash of the code at an address, that of no code if there is no account. -/
def codeHash (u : Snapshot) (a : Address) : Hash := ((u.account a).getD {}).codeHash

theorem any_hasCode_iff : (u.account a).any (·.hasCode) = true ↔ u.codeHash a ≠ keccakEmpty := by
  unfold codeHash
  cases u.account a with
  | none => exact iff_of_false Bool.false_ne_true (not_not.mpr rfl)
  | some x => exact bne_iff_ne

theorem codeHash_update {f : Account → Account} (hf : ∀ x, (f x).codeHash = x.codeHash)
    (u : Snapshot) (a b : Address) : (u.update a f).codeHash b = u.codeHash b := by
  unfold codeHash
  by_cases h : b = a
  · rw [h, account_update_self, Option.getD_some, hf]
  · rw [account_update_of_ne h]

theorem codeHash_clear (u : Snapshot) (a b : Address) : (u.clear a).codeHash b = u.codeHash b := by
  refine getD_clear (f := Account.codeHash) (fun x hempty => ?_) u a b
  rw [Account.isEmpty, Bool.and_eq_true, Bool.not_eq_true', Account.hasCode] at hempty
  simpa using hempty.2

/-- Whether nonces and code stay and no balance goes down by more than an amount. -/
structure Spends (amount : Nat) (u v : Snapshot) : Prop where
  nonce : ∀ a, v.nonce a = u.nonce a
  codeHash : ∀ a, v.codeHash a = u.codeHash a
  balance : ∀ a, (u.balance a).toNat ≤ (v.balance a).toNat + amount

theorem Spends.of_account_eq (h : v.account = u.account) : Spends 0 u v where
  nonce a := by rw [Snapshot.nonce, h]; rfl
  codeHash a := by rw [Snapshot.codeHash, h]; rfl
  balance a := by rw [Snapshot.balance, Snapshot.balance, h]; exact Nat.le_refl _

theorem Spends.mono (h : Spends m u v) (hmn : m ≤ n) : Spends n u v :=
  ⟨h.nonce, h.codeHash, fun a => (h.balance a).trans (Nat.add_le_add_left hmn _)⟩

theorem Spends.trans (h₁ : Spends m u v) (h₂ : Spends n v w) : Spends (m + n) u w where
  nonce a := (h₂.nonce a).trans (h₁.nonce a)
  codeHash a := (h₂.codeHash a).trans (h₁.codeHash a)
  balance a := by
    have hfirst := h₁.balance a
    have hsecond := h₂.balance a
    omega

theorem balance_le_update {f : Account → Account} {amount : Word}
    (hf : ∀ x, (f x).balance = satSub x.balance amount) (u : Snapshot) (a b : Address) :
    (u.balance b).toNat ≤ ((u.update a f).balance b).toNat + amount.toNat := by
  by_cases h : b = a
  · have hself : (u.update a f).balance a = satSub (u.balance a) amount := by
      rw [balance_update_self, hf]
      rfl
    rw [h, hself, toNat_satSub]
    omega
  · rw [balance_update_of_ne h]
    exact Nat.le_add_right _ _

theorem spends_credit (u : Snapshot) (a : Address) (amount : Word) :
    Spends 0 u (u.credit a amount) where
  nonce b := nonce_credit u a b amount
  codeHash b := by
    apply codeHash_update
    exact fun _ => rfl
  balance b := balance_le_credit u a b amount

theorem spends_debit (u : Snapshot) (a : Address) (amount : Word) :
    Spends amount.toNat u (u.debit a amount) where
  nonce b := nonce_debit u a b amount
  codeHash b := by
    apply codeHash_update
    exact fun _ => rfl
  balance b := by
    apply balance_le_update
    exact fun _ => rfl

theorem spends_clear (u : Snapshot) (a : Address) : Spends 0 u (u.clear a) where
  nonce b := (clear_eq u a b).1
  codeHash := codeHash_clear u a
  balance b := by rw [(clear_eq u a b).2]; exact Nat.le_refl _

end Snapshot

theorem Processor.spends_rewarded (p : Processor) (beneficiary : Address) (reward : Word)
    (u : Snapshot) : Spends 0 u (p.rewarded beneficiary reward u) := by
  rw [rewarded_eq]
  split
  · exact .of_account_eq rfl
  · exact spends_credit u beneficiary reward

namespace Simple

variable {config : ProcessorConfig} {ctx : BlockContext} {t : Transaction} {v : Validation}
  {r : TransactionRequest} {senderNonce : U64} {recipient : Address} {u : Snapshot}

/-! ## Accounts -/

theorem spends_moved (hr : r.recipient = some recipient) (senderNonce : U64) (u : Snapshot) :
    Spends r.value.toNat u (moved r senderNonce u) := by
  have hmoved : moved r senderNonce u = (u.debit r.sender r.value).credit recipient r.value := by
    simp only [moved, hr]
  rw [hmoved]
  exact (spends_debit u r.sender r.value).trans (spends_credit _ recipient r.value)

theorem spends_cleared (config : ProcessorConfig) (r : TransactionRequest) (senderNonce : U64)
    (u : Snapshot) : Spends 0 u (cleared config r senderNonce u) := by
  unfold cleared
  split
  · exact spends_clear u _
  · exact .of_account_eq rfl

theorem codeHash_startOn (ctx : BlockContext) (t : Transaction) (u : Snapshot) (a : Address) :
    (startOn ctx t u).codeHash a = u.codeHash a := by
  unfold startOn charged
  apply codeHash_update
  exact fun _ => rfl

theorem balance_le_startOn (ctx : BlockContext) (t : Transaction) (u : Snapshot) (a : Address) :
    (u.balance a).toNat ≤ ((startOn ctx t u).balance a).toNat +
      (t.request.gasLimit.toWord * (t.effectiveGasPrice ctx.header.basePrice).toWord +
        t.request.blobFee ctx.blobGasPrice).toNat := by
  unfold startOn charged
  apply balance_le_update
  exact fun _ => rfl

/-- After its charge, a transaction with a recipient spends no more than its value. -/
theorem Passes.spends (h : Passes config ctx t v u) (hr : t.request.recipient = some recipient) :
    Spends t.request.value.toNat (startOn ctx t u) (processOn config ctx t v u).2 := by
  obtain ⟨kept, hran⟩ := h.ran
  have hkept : Spends t.request.value.toNat (startOn ctx t u) kept := by
    cases hsuccess : (executionOn config ctx t (u.nonce t.request.sender) u).1.result.isSuccessful
      with
    | false =>
      rw [hran.undone hsuccess]
      exact (Spends.of_account_eq rfl).mono (Nat.zero_le _)
    | true =>
      -- After the body only an empty account may be deleted, and it has nothing to spend.
      exact ((spends_moved hr _ _).trans (spends_cleared config _ _ _)).trans
        (.of_account_eq (hran.accounts hsuccess))
  rw [h.processOn_eq]
  dsimp only
  rw [hran.final]
  exact (hkept.trans (spends_credit _ _ _)).trans ((processor config).spends_rewarded _ _ _)

/-- What a transaction with a recipient does to accounts, where `cost` bounds what it takes. -/
structure Called (r : TransactionRequest) (cost : Nat) (u v : Snapshot) : Prop where
  nonce : ∀ a, v.nonce a = if a = r.sender then u.nonce a + 1 else u.nonce a
  codeHash : ∀ a, v.codeHash a = u.codeHash a
  balance : ∀ a, (u.balance a).toNat ≤ (v.balance a).toNat + cost

/-- No more is taken than the most that the request allows for. -/
theorem Passes.called (h : Passes config ctx t v u) (hr : t.request.recipient = some recipient) :
    Called t.request (t.request.gasLimit.toNat * t.request.maxFee.toNat
      + (t.request.blobFee ctx.blobGasPrice).toNat + t.request.value.toNat) u
      (processOn config ctx t v u).2 := by
  have hspends := h.spends hr
  have hprice := (effectiveGasPrice_bounds h.static).2
  -- The price paid is at most the one offered, so the charge is within the offer.
  have hcost : (t.request.gasLimit.toWord *
      (t.effectiveGasPrice ctx.header.basePrice).toWord +
        t.request.blobFee ctx.blobGasPrice).toNat ≤
      t.request.gasLimit.toNat * t.request.maxFee.toNat +
        (t.request.blobFee ctx.blobGasPrice).toNat := by
    rw [BitVec.toNat_add, toNat_cost]
    exact (Nat.mod_le _ _).trans (Nat.add_le_add_right (Nat.mul_le_mul_left _ hprice) _)
  exact
    { nonce := fun a => (hspends.nonce a).trans (nonce_charged _ _ _ u a)
      codeHash := fun a => (hspends.codeHash a).trans (codeHash_startOn ctx t u a)
      balance := fun a => by
        have hcharge := balance_le_startOn ctx t u a
        have hafter := hspends.balance a
        omega }

/-! ## Results and slots -/

/-- The body of a transaction that passed its checks: how it ended, and the values after it. -/
def ranOn (ctx : BlockContext) (t : Transaction) (u : Snapshot) : BodyOutcome × Snapshot :=
  bodyOn ctx t.request (u.nonce t.request.sender) (startOn ctx t u)

theorem Passes.isSuccessful_processOn (h : Passes config ctx t v u) :
    (processOn config ctx t v u).1.isSuccessful = !(ranOn ctx t u).1.isFailed := by
  rw [h.processOn_eq]
  exact isSuccessful_result (ranOn ctx t u).1

theorem Passes.slot_processOn (h : Passes config ctx t v u) :
    (processOn config ctx t v u).2.slot =
      if (ranOn ctx t u).1.isFailed then u.slot else (ranOn ctx t u).2.slot := by
  have hstart : (startOn ctx t u).slot = u.slot := rfl
  rw [h.processOn_eq]
  show (keptOn config t.request _ (startOn ctx t u) (ranOn ctx t u).1 (ranOn ctx t u).2).slot = _
  unfold keptOn
  split
  · exact hstart
  · exact slot_cleared config t.request _ _

/-- A recipient that holds code runs the input. -/
theorem ranOn_of_code (ctx : BlockContext) (hr : t.request.recipient = some recipient)
    (hcode : u.codeHash recipient ≠ keccakEmpty) :
    ∃ start, start.slot = u.slot ∧ ranOn ctx t u =
      streamOn ctx recipient t.request.gasLimit (intrinsicGas t.request) [] t.request.input
        start := by
  have hspends := spends_moved hr (u.nonce t.request.sender) (startOn ctx t u)
  refine ⟨moved t.request (u.nonce t.request.sender) (startOn ctx t u), slot_moved _ _ _, ?_⟩
  unfold ranOn bodyOn
  rw [hr]
  dsimp only
  rw [if_pos]
  rw [any_hasCode_iff, hspends.codeHash, codeHash_startOn]
  exact hcode

/-- A recipient without code gets the value, and that is all. -/
theorem ranOn_of_plain (ctx : BlockContext) (hr : t.request.recipient = some recipient)
    (hplain : u.codeHash recipient = keccakEmpty) :
    ranOn ctx t u = (⟨intrinsicGas t.request, .ok []⟩,
      moved t.request (u.nonce t.request.sender) (startOn ctx t u)) := by
  have hspends := spends_moved hr (u.nonce t.request.sender) (startOn ctx t u)
  unfold ranOn bodyOn
  rw [hr]
  dsimp only
  rw [if_neg]
  rw [any_hasCode_iff, hspends.codeHash, codeHash_startOn]
  exact not_not.mpr hplain

end Simple

end BlockExecution
