/-
  Gas accounts of a block.

  Every executed transaction uses its gas limit at most and no less than the gas
  that is charged before it runs, and it is only executed if its gas limit fits
  into what the block has left. So the gas of a block never exceeds the limit, the
  difference to the limit never wraps around, and each receipt shows a larger
  total than the one before it.
-/
import BlockExecution.Proofs.Simple.Decoding
import BlockExecution.Proofs.Simple.Reward

namespace BlockExecution

open BlockExecution.Snapshot

/-! ## Gas of a transaction -/

/-- Whether a request is of a size that can be held in memory. -/
structure TransactionRequest.Sized (r : TransactionRequest) : Prop where
  input : r.input.length < 2 ^ 40
  accounts : r.accessList.length < 2 ^ 40
  slots : (r.accessList.map fun item => item.storageKeys.length).sum < 2 ^ 40

namespace TransactionRequest.Sized

open BlockExecution.Simple

variable {r : TransactionRequest}

theorem intrinsicCost_lt (h : r.Sized) : intrinsicCost r < 2 ^ 53 :=
  Simple.intrinsicCost_lt h.input h.accounts h.slots

theorem toNat_intrinsicGas (h : r.Sized) : (intrinsicGas r).toNat = intrinsicCost r := by
  have hcost := h.intrinsicCost_lt
  exact Simple.toNat_intrinsicGas (by omega)

theorem intrinsicGas_pos (h : r.Sized) : 0 < (intrinsicGas r).toNat := by
  rw [h.toNat_intrinsicGas, intrinsicCost]
  split <;> omega

end TransactionRequest.Sized

namespace Simple

variable {config : ProcessorConfig} {ctx : BlockContext} {t : Transaction} {v : Validation}
  {u w : Snapshot} {gasLimit gasUsed : U64}

/-- A program uses no less gas than was used before it. -/
theorem Program.le_gasUsed_result (p : Program) {start : Nat} (hstart : start ≤ gasLimit.toNat)
    (logs : List Log) : start ≤ (p.result gasLimit start logs).gasUsed.toNat := by
  have hlimit := gasLimit.isLt
  unfold Program.result
  split
  · exact hstart
  · rename_i hpaid
    have hspent : (BitVec.ofNat 64 (start + costOf p.instructions)).toNat =
        start + costOf p.instructions := by
      rw [BitVec.toNat_ofNat]
      exact Nat.mod_eq_of_lt (by omega)
    -- A program that was paid for shows all that was spent, or the whole limit if it stops badly.
    cases p.stop with
    | finished =>
      show start ≤ (BitVec.ofNat 64 (start + costOf p.instructions)).toNat
      omega
    | revert data =>
      show start ≤ (BitVec.ofNat 64 (start + costOf p.instructions)).toNat
      omega
    | malformed => exact hstart

/-- A transaction that passes its checks uses at least the gas that is charged beforehand. -/
theorem Passes.intrinsicGas_le_gasUsed (h : Passes config ctx t v u) (hsized : t.request.Sized) :
    (intrinsicGas t.request).toNat ≤ (processOn config ctx t v u).1.gasUsed.toNat := by
  have hlimit := intrinsicGas_le_of_staticFault h.static
  have hcost := hsized.intrinsicCost_lt
  have hbody : (processOn config ctx t v u).1.gasUsed = (ranOn ctx t u).1.gasUsed := by
    rw [h.result_processOn, gasUsed_result]
  cases hrecipient : t.request.recipient with
  | none =>
    -- A creation at a used address takes its whole limit, any other what is charged beforehand.
    rw [hbody, ranOn, bodyOn, hrecipient]
    dsimp only
    split
    · exact hlimit
    · exact Nat.le_refl _
  | some recipient =>
    by_cases hcode : u.codeHash recipient = keccakEmpty
    · rw [hbody, ranOn_of_plain ctx hrecipient hcode]
    · -- A call of a contract runs the program that its input spells.
      obtain ⟨p, hp⟩ := Program.exists_spells t.request.input
      have hinstructions := costOf_le p.instructions
      have hlength := hp.length_le
      have hinput := hsized.input
      obtain ⟨hresult, -⟩ := h.processOn_of_spells hrecipient (any_hasCode_iff.mpr hcode) hp
        (by omega) (by omega)
      rw [hresult, hsized.toNat_intrinsicGas]
      apply p.le_gasUsed_result
      rw [← hsized.toNat_intrinsicGas]
      exact hlimit

/-! ## Totals -/

/-- Gas totals on receipts that keep account of transactions, from the gas used before them to the
gas used in the end. -/
structure KeepsAccount (limit before : U64) (transactions : List Transaction) (totals : List U64)
    (final : U64) : Prop where
  count : totals.length = transactions.length
  /-- Each total is above the one before it by at least the gas charged before the transaction runs,
  and by its gas limit at most. -/
  spent : List.Forall₂
    (fun t total => total.1.toNat + (intrinsicGas t.request).toNat ≤ total.2.toNat ∧
      total.2.toNat ≤ total.1.toNat + t.request.gasLimit.toNat)
    transactions ((before :: totals).zip totals)
  increasing : (before :: totals).Pairwise (· < ·)
  last : (before :: totals).getLast (List.cons_ne_nil _ _) = final
  within : ∀ total ∈ before :: totals, total ≤ limit

namespace KeepsAccount

variable {limit before total final : U64} {transactions : List Transaction} {totals : List U64}

theorem nil (h : before ≤ limit) : KeepsAccount limit before [] [] before where
  count := rfl
  spent := .nil
  increasing := List.pairwise_singleton _ _
  last := rfl
  within := by simpa using h

theorem cons (hbefore : before ≤ limit) (hsized : t.request.Sized)
    (hintrinsic : before.toNat + (intrinsicGas t.request).toNat ≤ total.toNat)
    (hlimit : total.toNat ≤ before.toNat + t.request.gasLimit.toNat)
    (h : KeepsAccount limit total transactions totals final) :
    KeepsAccount limit before (t :: transactions) (total :: totals) final where
  count := congrArg Nat.succ h.count
  spent := .cons ⟨hintrinsic, hlimit⟩ h.spent
  increasing := by
    have hpos := hsized.intrinsicGas_pos
    have hlt : before < total := BitVec.lt_def.mpr (by omega)
    refine List.pairwise_cons.mpr ⟨?_, h.increasing⟩
    rintro later (_ | ⟨_, hlater⟩)
    · exact hlt
    · exact BitVec.lt_trans hlt ((List.pairwise_cons.mp h.increasing).1 later hlater)
  last := h.last
  within := List.forall_mem_cons.mpr ⟨hbefore, h.within⟩

theorem final_le (h : KeepsAccount limit before transactions totals final) : final ≤ limit := by
  rw [← h.last]
  exact h.within _ (List.getLast_mem _)

end KeepsAccount

/-- The receipts of a course keep account of its transactions. -/
theorem keepsAccount_of_course (ctx : BlockContext) {transactions : List Transaction}
    {results : List ProcessingResult}
    (h : Course ctx.header.gasLimit (meaning config ctx) gasUsed u transactions results w)
    (hgas : gasUsed ≤ ctx.header.gasLimit) (hsized : ∀ t ∈ transactions, t.request.Sized) :
    KeepsAccount ctx.header.gasLimit gasUsed transactions
      ((receiptsFrom gasUsed results).map (·.cumulativeGasUsed)) (gasAfter gasUsed results) := by
  -- Induction on the transactions; each fits into the gas that is left.
  induction h with
  | nil => exact .nil hgas
  | @cons gasUsed u w t rest results hfits hexecuted hrest ih =>
    obtain ⟨ht, hrestSized⟩ := List.forall_mem_cons.mp hsized
    have hpasses : Passes config ctx t .full u := rejection?_processOn_eq_none_iff.mp hexecuted
    have hused : (meaning config ctx t u).1.gasUsed ≤ t.request.gasLimit := hpasses.gasUsed_le
    have hintrinsic : (intrinsicGas t.request).toNat ≤ (meaning config ctx t u).1.gasUsed.toNat :=
      hpasses.intrinsicGas_le_gasUsed ht
    obtain ⟨htotal, hwithin⟩ := toNat_add_of_fits hgas hfits hused
    refine .cons hgas ht ?_ ?_ (ih hwithin hrestSized)
    · rw [htotal]
      exact Nat.add_le_add_left hintrinsic _
    · rw [htotal]
      exact Nat.add_le_add_left hused _

/-! ## Blocks -/

variable {archive : Archive} {block : Block} {schedule : Schedule}

/-- The gas of a block is accounted for. Before each transaction, also of a block that is refused
later, the gas used so far is within the limit. If the block is accepted, the totals on its receipts
start above zero, grow with each transaction by what it used, stay within the limit, and end with
the gas of the block. -/
theorem processBlock_gasAccount (hsized : ∀ t ∈ block.transactions, t.request.Sized) :
    (∀ parent count b, archive.state? block.header.parentHash = some parent →
      (processor config).progressAfter archive block schedule parent count = (.ok (), b) →
        b.gasUsed ≤ block.header.gasLimit) ∧
    (∀ o, ((processor config).processBlock archive block schedule).outcome = .ok o →
      KeepsAccount block.header.gasLimit 0 block.transactions
        (o.receipts.map (·.cumulativeGasUsed)) o.gasUsed) := by
  constructor
  · intro parent count b hparent hprogress
    -- The block cut off after those transactions is accepted.
    have hstate : archive.state? (block.first count).header.parentHash = some parent := hparent
    have haccepted : ((processor config).processBlock archive (block.first count)
        schedule).outcome = Processor.outcomeOf (block.first count) parent (.ok (), b) := by
      rw [Processor.processBlock_of_state hstate, Processor.progressAfter_first, hprogress]
    obtain ⟨results, w, hcourse, hyields⟩ := course_of_processBlock hstate haccepted
    have hfirst : ∀ t ∈ (block.first count).transactions, t.request.Sized :=
      fun t ht => hsized t (List.mem_of_mem_take ht)
    have hkeeps := keepsAccount_of_course (block.context archive) hcourse (Nat.zero_le _) hfirst
    have hgas : b.gasUsed = gasAfter 0 results := hyields.gasUsed
    rw [hgas]
    exact hkeeps.final_le
  · intro o ho
    obtain ⟨parent, hparent⟩ := Processor.exists_parent_of_ok ho
    obtain ⟨results, w, hcourse, hyields⟩ := course_of_processBlock hparent ho
    rw [hyields.receipts, hyields.gasUsed]
    exact keepsAccount_of_course (block.context archive) hcourse (Nat.zero_le _) hsized

/-- Three transfers use 21000 each. -/
theorem processBlock_gasAccount_transfers :
    (∀ t ∈ transfersBlock.transactions, t.request.Sized) ∧
      ∃ o, ((processor { verifySignatures := false }).processBlock payersArchive transfersBlock
          (.parallel fun _ => true)).outcome = .ok o ∧
        KeepsAccount transfersBlock.header.gasLimit 0 transfersBlock.transactions
          [21000, 42000, 63000] o.gasUsed := by
  have hsized : ∀ t ∈ transfersBlock.transactions, t.request.Sized := by
    have hsmall : ∀ t ∈ transfersBlock.transactions,
        t.request.input = [] ∧ t.request.accessList = [] := by decide
    intro t ht
    obtain ⟨hinput, hlist⟩ := hsmall t ht
    exact ⟨by rw [hinput]; decide, by rw [hlist]; decide, by rw [hlist]; decide⟩
  have hcomputed : ((processor { verifySignatures := false }).processBlock payersArchive
      transfersBlock (.parallel fun _ => true)).outcome.toOption.map (fun o =>
        o.receipts.map (·.cumulativeGasUsed)) = some [21000, 42000, 63000] := by
    decide +kernel
  obtain ⟨o, haccepted, htotals⟩ := exists_ok_of_map hcomputed
  refine ⟨hsized, o, haccepted, ?_⟩
  rw [← htotals]
  exact (processBlock_gasAccount hsized).2 o haccepted

end Simple

end BlockExecution
