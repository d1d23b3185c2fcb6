/-
  What a block pays its beneficiary.

  A beneficiary that takes no part in a transaction is left alone by it up to the
  reward, which is then credited in full: with the reward, the supply is no more
  than it was before the transaction. A block pays the rewards of its transactions
  and does nothing else to its beneficiary.
-/
import BlockExecution.Proofs.Simple.Conservation
import BlockExecution.Proofs.Simple.Meaning
import BlockExecution.Proofs.Simple.Replay

namespace BlockExecution

open BlockExecution.Snapshot

/-! ## Tips -/

/-- What a transaction pays above the base price for the gas it used. -/
def Header.tip (h : Header) (t : Transaction) (gasUsed : Nat) : ℤ :=
  gasUsed * ((t.effectiveGasPrice h.basePrice).toNat - h.basePrice.toNat : ℤ)

/-- The tips of transactions, from the gas total `before` them and their receipts on. -/
def Header.tips (h : Header) (before : Nat) (transactions : List Transaction)
    (receipts : List Receipt) : List ℤ :=
  List.zipWith h.tip transactions (gasShares before receipts)

/-- The balance at an address, in terms of the account there. -/
theorem WorldState.balance_eq (s : WorldState) (a : Address) :
    s.balance a = ((s.account? a).getD {}).balance := by
  rw [balance]
  cases s.account? a <;> rfl

/-! ## Payments -/

/-- What payments do to an account that nothing else happens to, where a payment of zero makes the
account or does not, as `clears` says. -/
structure PaidBy (clears : Bool) (a : Address) (payments : List ℤ) (u v : Snapshot) : Prop where
  supply : v.supply ≤ u.supply
  balance : ((v.balance a).toNat : ℤ) = (u.balance a).toNat + payments.sum
  rest : { (v.account a).getD {} with balance := 0 } =
    { (u.account a).getD {} with balance := 0 }
  slot : ∀ k, k.address = a → v.slot k = u.slot k
  present : v.account a ≠ none ↔
    u.account a ≠ none ∨ (∃ x ∈ payments, x ≠ 0) ∨ clears = false ∧ payments ≠ []

namespace PaidBy

variable {clears : Bool} {a : Address} {payment : ℤ} {payments : List ℤ} {u v w : Snapshot}

theorem nil (clears : Bool) (a : Address) (u : Snapshot) : PaidBy clears a [] u u where
  supply := le_rfl
  balance := (add_zero _).symm
  rest := rfl
  slot _ _ := rfl
  present := by simp

theorem cons (hfirst : PaidBy clears a [payment] u v) (hrest : PaidBy clears a payments v w) :
    PaidBy clears a (payment :: payments) u w where
  supply := hrest.supply.trans hfirst.supply
  balance := by
    rw [hrest.balance, hfirst.balance]
    simp only [List.sum_cons, List.sum_nil]
    omega
  rest := hrest.rest.trans hfirst.rest
  slot k hk := (hrest.slot k hk).trans (hfirst.slot k hk)
  present := by
    rw [hrest.present, hfirst.present]
    simp only [List.mem_cons, List.not_mem_nil, exists_eq_or_imp, exists_eq_left, or_false,
      ne_eq, reduceCtorEq, not_false_eq_true, and_true]
    grind

/-- A payment of zero that is not credited. -/
theorem skipped (hsupply : v.supply ≤ u.supply) (haccount : v.account a = u.account a)
    (hslot : ∀ k, k.address = a → v.slot k = u.slot k) : PaidBy true a [0] u v where
  supply := hsupply
  balance := by simp [Snapshot.balance, haccount]
  rest := by rw [haccount]
  slot := hslot
  present := by simp [haccount]

/-- A payment that is credited and for which there is room. One of zero is credited only where it
makes the account. -/
theorem credited {amount : Word} (hsupply : v.supply + amount.toNat ≤ u.supply)
    (hroom : u.supply < 2 ^ 256) (haccount : v.account a = u.account a)
    (hslot : ∀ k, k.address = a → v.slot k = u.slot k) (hzero : amount = 0 → clears = false) :
    PaidBy clears a [(amount.toNat : ℤ)] u (v.credit a amount) where
  supply := by
    rw [supply_credit (by omega)]
    exact hsupply
  balance := by
    have hown := balance_le_supply v a
    have hsame : v.balance a = u.balance a := congrArg (fun x => (x.getD {}).balance) haccount
    have hpaid : ((v.credit a amount).balance a).toNat = (u.balance a).toNat + amount.toNat := by
      rw [balance_credit_self, toNat_satAdd, ← hsame]
      omega
    simp [hpaid]
  rest := by
    rw [credit, account_update_self, haccount]
    rfl
  slot := hslot
  present := by
    rw [credit, account_update_self]
    refine iff_of_true (Option.some_ne_none _) (.inr ?_)
    by_cases hamount : amount = 0
    · exact .inr ⟨hzero hamount, List.cons_ne_nil _ _⟩
    · have hnat : amount.toNat ≠ 0 := fun h => hamount (BitVec.eq_of_toNat_eq h)
      exact .inl ⟨_, List.mem_singleton_self _, by omega⟩

end PaidBy

namespace Simple

variable {config : ProcessorConfig} {ctx : BlockContext} {t : Transaction} {v : Validation}
  {u w : Snapshot} {a : Address}

/-- Nothing is clipped in the reward of a transaction that passes its checks. -/
theorem Passes.toNat_rewardOf (h : Passes config ctx t v u) (gasUsed : U64) :
    ((rewardOf ctx.header t gasUsed).toNat : ℤ) = ctx.header.tip t gasUsed.toNat := by
  obtain ⟨hbase, -⟩ := effectiveGasPrice_bounds h.static
  rw [rewardOf, toNat_tip h.static, Header.tip, Nat.cast_mul, Nat.cast_sub hbase]

/-- The supply that a transaction and its reward leave is no more than there was. -/
theorem Passes.supply_add_reward_le (h : Passes config ctx t v u)
    (hroom : u.supply < 2 ^ 256 - 1) :
    (executionOn config ctx t (u.nonce t.request.sender) u).2.supply +
      (rewardOf ctx.header t
        (executionOn config ctx t (u.nonce t.request.sender) u).1.result.gasUsed).toNat ≤
      u.supply := by
  obtain ⟨kept, hran⟩ := h.ran
  have hsupply := hran.supply_add_fees h.static h.sender hroom
  rw [rewardOf]
  omega

/-- A beneficiary that takes no part in a transaction is paid its tip. -/
theorem Passes.paidBy (h : Passes config ctx t v u) (hroom : u.supply < 2 ^ 256 - 1)
    (hsender : ctx.beneficiary ≠ t.request.sender)
    (htarget : ctx.beneficiary ≠ target t.request (u.nonce t.request.sender)) :
    PaidBy config.clearEmptyAccounts ctx.beneficiary
      [ctx.header.tip t (processOn config ctx t v u).1.gasUsed.toNat] u
      (processOn config ctx t v u).2 := by
  have halone := agreeOn_executionOn config ctx (intrinsicGas_le_of_staticFault h.static)
    hsender htarget u
  have hle := h.supply_add_reward_le hroom
  have htip := h.toNat_rewardOf
    (executionOn config ctx t (u.nonce t.request.sender) u).1.result.gasUsed
  rw [h.processOn_eq]
  dsimp only
  rw [← htip, Processor.rewarded_eq]
  generalize executionOn config ctx t (u.nonce t.request.sender) u = ran at halone hle ⊢
  generalize rewardOf ctx.header t ran.1.result.gasUsed = reward at hle ⊢
  have haccount : ran.2.account ctx.beneficiary = u.account ctx.beneficiary :=
    halone (.account ctx.beneficiary) rfl
  have hslot : ∀ k, k.address = ctx.beneficiary → ran.2.slot k = u.slot k :=
    fun k hk => halone (.slot k) hk
  have hclears : (processor config).config.clearEmptyAccounts = config.clearEmptyAccounts := rfl
  rw [hclears]
  split
  · rename_i hskip
    obtain ⟨rfl, hclear⟩ := hskip
    rw [hclear]
    exact .skipped (by omega) haccount hslot
  · rename_i hcredit
    exact .credited hle (by omega) haccount hslot fun hzero =>
      Bool.eq_false_iff.mpr fun hclear => hcredit ⟨hzero, hclear⟩

/-! ## Courses -/

/-- The gas shown on the receipts of a course is what its transactions used. -/
theorem gasShares_receiptsFrom (ctx : BlockContext) {gasUsed : U64}
    {transactions : List Transaction} {results : List ProcessingResult}
    (h : Course ctx.header.gasLimit (meaning config ctx) gasUsed u transactions results w)
    (hgas : gasUsed ≤ ctx.header.gasLimit) :
    gasShares gasUsed.toNat (receiptsFrom gasUsed results) =
      results.map (·.gasUsed.toNat) := by
  induction h with
  | nil => rfl
  | @cons gasUsed u w t rest results hfits hexecuted hrest ih =>
    have hused : (meaning config ctx t u).1.gasUsed ≤ t.request.gasLimit :=
      (rejection?_processOn_eq_none_iff.mp hexecuted).gasUsed_le
    obtain ⟨htotal, hwithin⟩ := toNat_add_of_fits hgas hfits hused
    rw [receiptsFrom, gasShares, ih hwithin, List.map_cons, htotal, Nat.add_sub_cancel_left]

/-- A course pays a beneficiary that takes no part in its transactions their tips. -/
theorem paidBy_course (ctx : BlockContext) {gasUsed : U64} {transactions : List Transaction}
    {results : List ProcessingResult}
    (h : Course ctx.header.gasLimit (meaning config ctx) gasUsed u transactions results w)
    (hroom : u.supply < 2 ^ 256 - 1)
    (hapart : ∀ t ∈ transactions, ctx.beneficiary ≠ t.request.sender ∧
      ctx.beneficiary ≠ target t.request t.request.nonce) :
    PaidBy config.clearEmptyAccounts ctx.beneficiary
      (List.zipWith ctx.header.tip transactions (results.map (·.gasUsed.toNat))) u w := by
  -- Induction on the transactions; the supply only goes down, so there is room for the next.
  induction h with
  | nil gasUsed u => exact .nil _ _ u
  | @cons gasUsed u w t rest results hfits hexecuted hrest ih =>
    have hpasses : Passes config ctx t .full u := rejection?_processOn_eq_none_iff.mp hexecuted
    have hnonce : u.nonce t.request.sender = t.request.nonce :=
      nonce_of_senderFault rfl hpasses.sender
    obtain ⟨hsender, htarget⟩ := hapart t List.mem_cons_self
    have hfirst := hpasses.paidBy hroom hsender (hnonce ▸ htarget)
    exact hfirst.cons (ih (hfirst.supply.trans_lt hroom) fun t' ht' =>
      hapart t' (List.mem_cons_of_mem _ ht'))

/-! ## Blocks -/

variable {archive : Archive} {block : Block} {schedule : Schedule} {parent : WorldState}
  {o : BlockOutcome}

/-- A block pays its beneficiary the tip of each transaction once. Where the beneficiary takes no
part in any of them, it keeps everything else that it had, and an account is made for it only by a
tip that is not zero, or by any transaction where empty accounts are not cleared. -/
theorem processBlock_beneficiary
    (hparent : archive.state? block.header.parentHash = some parent)
    (hroom : parent.supply < 2 ^ 256 - 1)
    (hapart : ∀ t ∈ block.transactions, block.header.beneficiary ≠ t.request.sender ∧
      block.header.beneficiary ≠ target t.request t.request.nonce)
    (h : ((processor config).processBlock archive block schedule).outcome = .ok o) :
    let beneficiary := block.header.beneficiary
    let tips := block.header.tips 0 block.transactions o.receipts
    let before := parent.account? beneficiary
    let after := o.state.account? beneficiary
    o.receipts.length = block.transactions.length ∧
      ((o.state.balance beneficiary).toNat : ℤ) =
        (parent.balance beneficiary).toNat + tips.sum ∧
      (after.getD {}).nonce = (before.getD {}).nonce ∧
      (after.getD {}).codeHash = (before.getD {}).codeHash ∧
      (after.getD {}).code = (before.getD {}).code ∧
      (∀ slot, o.state.storageValue ⟨beneficiary, slot⟩ =
        parent.storageValue ⟨beneficiary, slot⟩) ∧
      (before ≠ none → after ≠ none) ∧
      (before = none → (after ≠ none ↔
        (∃ x ∈ tips, x ≠ 0) ∨
          config.clearEmptyAccounts = false ∧ block.transactions ≠ [])) := by
  intro beneficiary tips before after
  obtain ⟨results, w, hcourse, hyields⟩ := course_of_processBlock hparent h
  have hstart : parent.view.values.supply = parent.supply := (parent.supply_eq fun _ => rfl).symm
  have hshares : gasShares 0 (receiptsFrom 0 results) = results.map (·.gasUsed.toNat) :=
    gasShares_receiptsFrom (block.context archive) hcourse (Nat.zero_le _)
  have hpaid : PaidBy config.clearEmptyAccounts beneficiary tips parent.view.values w := by
    have hsum := paidBy_course (block.context archive) hcourse (hstart.symm ▸ hroom) hapart
    rw [← hshares, ← hyields.receipts] at hsum
    exact hsum
  have hafter : after = w.account beneficiary := hyields.account beneficiary
  have hlength : o.receipts.length = block.transactions.length := by
    rw [hyields.receipts, length_receiptsFrom, hcourse.length_eq]
  have hnonempty : tips ≠ [] ↔ block.transactions ≠ [] := by
    have hcount : tips.length = block.transactions.length := by
      simp only [tips, Header.tips, hyields.receipts, hshares, List.length_zipWith,
        List.length_map, hcourse.length_eq, min_self]
    rw [← List.length_pos_iff, hcount, List.length_pos_iff]
  -- Without its balance the account is the same, so every other field is.
  have hrest := hpaid.rest
  rw [← hafter] at hrest
  obtain ⟨hnonce, -, hcodeHash, hcode⟩ := Account.mk.inj hrest
  refine ⟨hlength, ?_, hnonce, hcodeHash, hcode, ?_, ?_, ?_⟩
  · have hbalance := hpaid.balance
    simp only [Snapshot.balance, ← hafter] at hbalance
    rw [WorldState.balance_eq, WorldState.balance_eq]
    exact hbalance
  · intro slot
    rw [hyields.slot, if_neg]
    · exact hpaid.slot ⟨beneficiary, slot⟩ rfl
    · rintro ⟨hhad, hgone⟩
      exact hpaid.present.mpr (.inl hhad) hgone
  · intro hhad
    rw [hafter]
    exact hpaid.present.mpr (.inl hhad)
  · intro hnone
    have hbefore : ¬ parent.view.values.account beneficiary ≠ none := not_not.mpr hnone
    rw [hafter, hpaid.present, ← hnonempty]
    exact or_iff_right hbefore

/-- The transfers pay the beneficiary, which was not there before, for each of them. -/
theorem processBlock_beneficiary_transfers :
    ∃ o, ((processor { verifySignatures := false }).processBlock payersArchive transfersBlock
        (.parallel fun _ => true)).outcome = .ok o ∧
      transfersBlock.header.tips 0 transfersBlock.transactions o.receipts =
        [42000, 42000, 42000] ∧
      o.state.account? 9 = some (.plain 0 126000) := by
  have hcomputed : ((processor { verifySignatures := false }).processBlock payersArchive
      transfersBlock (.parallel fun _ => true)).outcome.toOption.map (fun o =>
        transfersBlock.header.tips 0 transfersBlock.transactions o.receipts) =
      some [42000, 42000, 42000] := by
    decide +kernel
  have hparent : payersArchive.state? transfersBlock.header.parentHash = some payersState := by
    decide +kernel
  have hbefore : payersState.account? transfersBlock.header.beneficiary = none := by
    decide +kernel
  obtain ⟨o, haccepted, htips⟩ := exists_ok_of_map hcomputed
  obtain ⟨-, hbalance, hnonce, hcodeHash, hcode, -, -, hpresent⟩ :=
    processBlock_beneficiary hparent (by decide +kernel) (by decide +kernel) haccepted
  rw [htips] at hbalance hpresent
  rw [hbefore] at hnonce hcodeHash hcode
  have hmade := (hpresent hbefore).mpr (.inl ⟨42000, List.mem_cons_self, by decide⟩)
  obtain ⟨x, hx⟩ := Option.ne_none_iff_exists'.mp hmade
  rw [WorldState.balance_eq, WorldState.balance_eq, hbefore, hx] at hbalance
  rw [hx] at hnonce hcodeHash hcode
  have hsum : x.balance = 126000 := BitVec.eq_of_toNat_eq (Int.ofNat.inj hbalance)
  refine ⟨o, haccepted, htips, hx.trans (congrArg some ?_)⟩
  obtain ⟨nonce, balance, codeHash, code⟩ := x
  exact Account.mk.injEq .. ▸ ⟨hnonce, hsum, hcodeHash, hcode⟩

end Simple

end BlockExecution
