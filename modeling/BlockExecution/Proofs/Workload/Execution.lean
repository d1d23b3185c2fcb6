/-
  Errands under the slot processor.

  A sender on an errand passes its checks if it has no code, its nonce is the one
  in the request and it can pay the dearest errand. The errands that are to fail
  then fail, a count adds one to the counter, and a payment leaves it alone.
-/
import BlockExecution.Bytes.Lemmas
import BlockExecution.Proofs.Simple.Call
import BlockExecution.Proofs.State.SlotTotal
import BlockExecution.Proofs.Workload.Errand

namespace BlockExecution

namespace Workload

open BlockExecution.Simple BlockExecution.Snapshot

variable {c : WorkloadConfig} {keys : List SigningKey} {key : SigningKey} {sender : Nat}
  {nonce : U64} {errand : Errand} {a : Address} {config : ProcessorConfig} {ctx : BlockContext}
  {u : Snapshot}

/-! ## Checks -/

/-- The gas that an errand costs before anything runs. -/
def Errand.openingGas : Errand → U64
  | .revert => 21016
  | .count _ => 21528
  | .starve _ => 21528
  | .pay _ => 21000

theorem length_incrementInput (slot : Word) : (incrementInput slot).length = 33 := by
  rw [incrementInput, List.length_cons, Word.length_bytes]

theorem intrinsicGas_request (hr : errand.recipient keys = some a) (address : Address)
    (nonce : U64) : intrinsicGas (errand.request c keys address nonce) = errand.openingGas := by
  unfold intrinsicGas Errand.request
  dsimp only
  rw [hr]
  cases errand with
  | revert => rfl
  | count slot =>
    rw [Errand.input, length_incrementInput]
    show transactionGas + BitVec.ofNat 64 33 * inputByteGas + 0 = 21528
    decide
  | starve slot =>
    rw [Errand.input, length_incrementInput]
    show transactionGas + BitVec.ofNat 64 33 * inputByteGas + 0 = 21528
    decide
  | pay payee => rfl

theorem openingGas_le (errand : Errand) : errand.openingGas ≤ errand.gasLimit := by
  have hcall : (21528 : U64) ≤ callGasLimit := by decide
  have hshort : (21528 : U64) ≤ shortGasLimit := by decide
  cases errand with
  | revert => decide
  | count slot => exact hcall
  | starve slot => exact hshort
  | pay payee => exact BitVec.le_refl _

/-- The most that an errand costs. -/
def allowance : Nat := 1042000000000000

theorem cost_le_allowance (errand : Errand) :
    errand.gasLimit.toNat * 2000000000 + errand.value.toNat ≤ allowance := by
  have hcall : callGasLimit.toNat * 2000000000 + (0 : Word).toNat ≤ allowance := by decide
  have hshort : shortGasLimit.toNat * 2000000000 + (0 : Word).toNat ≤ allowance := by decide
  have htransfer : transferGasLimit.toNat * 2000000000 + transferValue.toNat ≤ allowance := by
    decide
  cases errand with
  | revert => exact hcall
  | count slot => exact hcall
  | starve slot => exact hshort
  | pay payee => exact htransfer

theorem cost_le_request (c : WorkloadConfig) (keys : List SigningKey) (errand : Errand)
    (address : Address) (nonce : U64) (price : Word) :
    (errand.request c keys address nonce).gasLimit.toNat *
        (errand.request c keys address nonce).maxFee.toNat +
      ((errand.request c keys address nonce).blobFee price).toNat +
      (errand.request c keys address nonce).value.toNat ≤ allowance := by
  -- There are no blobs, so the price of blobs does not count.
  have hblobs : ((errand.request c keys address nonce).blobFee price).toNat = 0 := by
    have hnone : (errand.request c keys address nonce).blobGas.toWord.toNat = 0 := rfl
    rw [TransactionRequest.blobFee, toNat_satMul, hnone, Nat.mul_zero, Nat.zero_min]
  have hfee : (errand.request c keys address nonce).maxFee.toNat = 2000000000 := rfl
  rw [hblobs, hfee, Nat.add_zero]
  exact cost_le_allowance errand

theorem staticFault_transaction (hbase : ctx.header.basePrice = BitVec.ofNat 128 baseFee)
    (hchain : config.chainId = c.chainId)
    (hsigned : config.verifySignatures = false ∨ ∀ r, (key.sign r).signer = some key.address)
    (hr : errand.recipient keys = some a) (nonce : U64) :
    staticFault config ctx.header (errand.transaction c keys key nonce) .full = none := by
  have hrequest : (errand.transaction c keys key nonce).request =
      errand.request c keys key.address nonce := rfl
  have hsignature : ¬ (Validation.full.verifySignature && config.verifySignatures &&
      !(errand.transaction c keys key nonce).isSignedBySender) = true := by
    rcases hsigned with hoff | hsigns
    · rw [hoff, Bool.and_false, Bool.false_and]
      exact Bool.false_ne_true
    · have hsigner : (errand.transaction c keys key nonce).isSignedBySender = true :=
        beq_iff_eq.mpr (hsigns _)
      rw [hsigner, Bool.not_true, Bool.and_false]
      exact Bool.false_ne_true
  have hchainId : ¬ (errand.request c keys key.address nonce).chainId ≠ config.chainId :=
    not_not.mpr hchain.symm
  have hprice : ¬ (BitVec.ofNat 128 (2 * baseFee)) < BitVec.ofNat 128 baseFee := by decide
  have hbase' : ¬ (errand.request c keys key.address nonce).maxFee < BitVec.ofNat 128 baseFee :=
    hprice
  have hpriority : ¬ (errand.request c keys key.address nonce).maxFee <
      (errand.request c keys key.address nonce).maxPriorityFee := hprice
  have hblobs : ¬ (!(errand.request c keys key.address nonce).blobHashes.isEmpty &&
      (errand.request c keys key.address nonce).recipient.isNone) = true := Bool.false_ne_true
  have hgas : ¬ (errand.request c keys key.address nonce).gasLimit < errand.openingGas :=
    BitVec.not_lt.mpr (openingGas_le errand)
  unfold staticFault
  dsimp only
  rw [hrequest, hbase, intrinsicGas_request hr, if_neg hsignature, if_neg hchainId, if_neg hbase',
    if_neg hpriority, if_neg hblobs, if_neg hgas]

theorem senderFault_transaction (hnonce : u.nonce key.address = nonce)
    (hplain : u.codeHash key.address = keccakEmpty)
    (hfunds : allowance ≤ (u.balance key.address).toNat) (price : Word) :
    senderFault (errand.transaction c keys key nonce) .full price
      ((u.account key.address).getD {}) = none := by
  have hrequest : (errand.transaction c keys key nonce).request =
      errand.request c keys key.address nonce := rfl
  have hcost : (maxCost (errand.request c keys key.address nonce) price).toNat ≤ allowance := by
    have hle := cost_le_request c keys errand key.address nonce price
    rw [maxCost, toNat_satAdd, toNat_satAdd, toNat_cost]
    omega
  unfold senderFault
  dsimp only
  rw [hrequest, if_neg, if_neg, if_neg]
  · exact BitVec.not_lt.mpr (BitVec.le_def.mpr (hcost.trans hfunds))
  · rw [Account.hasCode, bne_iff_ne]
    exact not_not.mpr hplain
  · show ¬ (true && (u.nonce key.address != nonce)) = true
    rw [Bool.true_and, bne_iff_ne]
    exact not_not.mpr hnonce

/-! ## Outcomes -/

theorem front_incrementInput (slot : Word) :
    Front.ofStream (incrementInput slot) = .instruction ⟨.increment, slot⟩ [] := by
  have hlength := Word.length_bytes slot
  rw [incrementInput, Front.ofStream, if_neg (by decide)]
  simp only [Opcode.ofByte?]
  rw [if_neg (by omega), List.take_of_length_le hlength.le, List.drop_of_length_le hlength.le,
    Word.ofBytes_bytes]

/-- The stream of an increment adds one to its slot if the gas suffices and fails else. -/
theorem streamOn_incrementInput (ctx : BlockContext) (contract : Address)
    (gasLimit gasUsed : U64) (slot : Word) (u : Snapshot) :
    streamOn ctx contract gasLimit gasUsed [] (incrementInput slot) u =
      if gasLimit < gasUsed + Opcode.increment.gas then
        (BodyOutcome.exhausted gasLimit .outOfGas, u)
      else
        (⟨gasUsed + Opcode.increment.gas,
            .ok [⟨contract, [slot], (u.slot ⟨contract, slot⟩ + 1).bytes⟩]⟩,
          u.setSlot ⟨contract, slot⟩ (u.slot ⟨contract, slot⟩ + 1)) := by
  rw [streamOn_eq, front_incrementInput]
  dsimp only
  split
  · rfl
  · rw [streamOn_eq]
    rfl

/-- The contracts hold code, and the accounts do not. -/
structure Deployed (keys : List SigningKey) (u : Snapshot) : Prop where
  counter : u.codeHash counter ≠ keccakEmpty
  reverter : u.codeHash reverter ≠ keccakEmpty
  plain : ∀ key ∈ keys, u.codeHash key.address = keccakEmpty

/-- A call of the counter adds one to its slot if the gas suffices. -/
theorem Deployed.ranOn_counter (errand : Errand) (h : Deployed keys u) {slot : Word}
    (hr : errand.recipient keys = some Workload.counter)
    (hinput : errand.input = incrementInput slot) (hopening : errand.openingGas = 21528)
    (ctx : BlockContext) (key : SigningKey) (nonce : U64) :
    ∃ start : Snapshot, start.slot = u.slot ∧
      ranOn ctx (errand.transaction c keys key nonce) u =
        if errand.gasLimit < 21528 + Opcode.increment.gas then
          (BodyOutcome.exhausted errand.gasLimit .outOfGas, start)
        else
          (⟨21528 + Opcode.increment.gas,
              .ok [⟨Workload.counter, [slot], (start.slot ⟨Workload.counter, slot⟩ + 1).bytes⟩]⟩,
            start.setSlot ⟨Workload.counter, slot⟩ (start.slot ⟨Workload.counter, slot⟩ + 1)) := by
  have hgas : intrinsicGas (errand.transaction c keys key nonce).request = 21528 :=
    (intrinsicGas_request hr key.address nonce).trans hopening
  have hstream : (errand.transaction c keys key nonce).request.input = incrementInput slot := hinput
  obtain ⟨start, hslot, hran⟩ := ranOn_of_code ctx
    (t := errand.transaction c keys key nonce) (u := u) hr h.counter
  rw [hgas, hstream, streamOn_incrementInput] at hran
  exact ⟨start, hslot, hran⟩

/-- How the body of an errand ends, and what it does to the counter if it succeeds. -/
theorem Deployed.ranOn (h : Deployed keys u) (hsuits : errand.Suits keys.length sender)
    (hroom : u.slotTotal Workload.counter < 2 ^ 256 - 1) (ctx : BlockContext) (key : SigningKey)
    (nonce : U64) :
    (ranOn ctx (errand.transaction c keys key nonce) u).1.isFailed = errand.fails ∧
      (errand.fails = false →
        (ranOn ctx (errand.transaction c keys key nonce) u).2.slotTotal Workload.counter =
          u.slotTotal Workload.counter + if errand.counts then 1 else 0) := by
  cases errand with
  | revert =>
    -- The input is one byte, which reverts at once.
    obtain ⟨start, -, hran⟩ := ranOn_of_code ctx
      (t := Errand.revert.transaction c keys key nonce) (u := u) rfl h.reverter
    have hfront : Front.ofStream (Errand.revert.transaction c keys key nonce).request.input =
      .revert [] := rfl
    rw [hran, streamOn_eq, hfront]
    exact ⟨rfl, fun hnot => Bool.noConfusion hnot⟩
  | starve slot =>
    obtain ⟨start, -, hran⟩ := Deployed.ranOn_counter (c := c) (.starve slot) h rfl rfl rfl ctx
      key nonce
    -- The gas does not pay for the one instruction of the input.
    have hshort : shortGasLimit < (21528 : U64) + Opcode.increment.gas := by decide
    rw [hran, Errand.gasLimit, if_pos hshort]
    exact ⟨rfl, fun hnot => Bool.noConfusion hnot⟩
  | count slot =>
    obtain ⟨start, hslot, hran⟩ := Deployed.ranOn_counter (c := c) (.count slot) h rfl rfl rfl
      ctx key nonce
    have henough : ¬ callGasLimit < (21528 : U64) + Opcode.increment.gas := by decide
    have hstart : start.slotTotal Workload.counter = u.slotTotal Workload.counter :=
      slotTotal_congr fun l => congrFun hslot _
    rw [← hstart] at hroom ⊢
    rw [hran, Errand.gasLimit, if_neg henough]
    exact ⟨rfl, fun _ => slotTotal_setSlot_succ hroom slot⟩
  | pay payee =>
    obtain ⟨other, hmem, hpays⟩ := hsuits.recipient_pay
    have hran := ranOn_of_plain ctx
      (t := (Errand.pay payee).transaction c keys key nonce) (u := u) hpays (h.plain other hmem)
    rw [hran]
    -- A payment moves balances and leaves slots alone.
    refine ⟨rfl, fun _ => ?_⟩
    show _ = u.slotTotal Workload.counter + 0
    rw [Nat.add_zero]
    exact slotTotal_congr fun l => congrFun (slot_moved _ _ _) _

theorem Deployed.congr {v : Snapshot} (h : Deployed keys u)
    (hcode : ∀ a, v.codeHash a = u.codeHash a) : Deployed keys v where
  counter := by rw [hcode]; exact h.counter
  reverter := by rw [hcode]; exact h.reverter
  plain key hkey := by rw [hcode]; exact h.plain key hkey

/-- An errand succeeds unless it is to fail, and a count adds one to the counter. -/
theorem Deployed.processOn (h : Deployed keys u)
    (hpasses : Passes config ctx (errand.transaction c keys key nonce) .full u)
    (hsuits : errand.Suits keys.length sender)
    (hroom : u.slotTotal Workload.counter < 2 ^ 256 - 1) :
    (processOn config ctx (errand.transaction c keys key nonce) .full u).1.isSuccessful =
        !errand.fails ∧
      (processOn config ctx (errand.transaction c keys key nonce) .full u).2.slotTotal
          Workload.counter =
        u.slotTotal Workload.counter + if errand.counts then 1 else 0 := by
  obtain ⟨hfailed, hcounts⟩ := h.ranOn (c := c) hsuits hroom ctx key nonce
  have hslot := hpasses.slot_processOn
  refine ⟨by rw [hpasses.isSuccessful_processOn, hfailed], ?_⟩
  rw [hfailed] at hslot
  cases hfails : errand.fails with
  | true =>
    have hnot : errand.counts = false := by
      cases errand with
      | revert => rfl
      | starve slot => rfl
      | count slot => exact Bool.noConfusion hfails
      | pay payee => exact Bool.noConfusion hfails
    rw [if_pos hfails] at hslot
    rw [slotTotal_congr fun l => congrFun hslot _, hnot]
    exact (Nat.add_zero _).symm
  | false =>
    rw [if_neg (Bool.eq_false_iff.mp hfails)] at hslot
    rw [slotTotal_congr fun l => congrFun hslot _]
    exact hcounts hfails

end Workload

end BlockExecution
