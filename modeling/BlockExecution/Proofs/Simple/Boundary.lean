/-
  Persisting a state between transactions.

  An accumulator goes on answering with the slots of an account that it deleted;
  in the state that its changes are applied to they are gone. Persisting the state
  between two lists of transactions thus goes unseen as long as no transaction
  deletes an account that holds a slot. That is so for every state in which no
  empty account holds one, and where empty accounts are not deleted at all. It is
  more than is needed: a deletion is not seen either if it comes after the state is
  persisted, or if nothing brings the account back.
-/
import BlockExecution.Proofs.Processing.Sequence
import BlockExecution.Proofs.Simple.Conservation
import BlockExecution.Proofs.Simple.Effect

namespace BlockExecution

open BlockExecution.Snapshot

namespace Simple

variable {config : ProcessorConfig} {ctx : BlockContext} {t : Transaction} {v : Validation}
  {u w x final kept : Snapshot} {st : Settlement} {result : ProcessingResult} {view : WorldView}

/-! ## Lists of transactions -/

/-- Every transaction goes through. -/
theorem runOn_process (config : ProcessorConfig) (ctx : BlockContext) (t : Transaction)
    (v : Validation) {world : Accumulator} (hw : world.StandsOn view) (hr : view.Readable) :
    ∃ result world', ((processor config).process ctx t v).runOn world = (.ok result, world') ∧
      world'.StandsOn view ∧ Processed config ctx t v world.values result world'.values := by
  obtain ⟨result, world', hrun, hext, hprocessed⟩ :=
    ensures_processed config ctx t v world.values world hw.sound (hw.base ▸ hr) rfl
  exact ⟨result, world', hrun, hext.standsOn hw, hprocessed⟩

/-- A list of transactions always goes through. If no account with a slot is deleted on the way, it
leaves no slots behind of whatever was there before. -/
theorem runOn_processEach (config : ProcessorConfig) (ctx : BlockContext) (v : Validation)
    (xs : List Transaction) {world : Accumulator} (hw : world.StandsOn view)
    (hr : view.Readable) :
    ∃ results world',
      ((processor config).processEach ctx v xs).runOn world = (.ok results, world') ∧
      world'.StandsOn view ∧
      ((processor config).DeletesOnlyBare ctx v world xs →
        ∀ u : Snapshot, u.LeavesNoSlots world.values → u.LeavesNoSlots world'.values) := by
  induction xs generalizing world with
  | nil => exact ⟨[], world, rfl, hw, fun _ _ h => h⟩
  | cons t rest ih =>
    -- What the first transaction leaves is what the others start from.
    obtain ⟨result, world₁, hrun, hw₁, hprocessed⟩ := runOn_process config ctx t v hw hr
    obtain ⟨results, world₂, hrest, hw₂, hleaves⟩ := ih hw₁.commit
    refine ⟨result :: results, world₂, ?_, hw₂, ?_⟩
    · simp only [Processor.runOn_processEach_cons, hrun, hrest, Except.map]
    · rintro ⟨hbare, hlater⟩ u hu
      rw [hrun] at hbare hlater
      exact hleaves hlater u (hu.trans hbare fun k => hprocessed.slot_eq_of_absent)

/-! ## Where nothing is deleted -/

theorem account_moved_ne_none {r : TransactionRequest} (senderNonce : U64) {a : Address}
    (h : u.account a ≠ none) : (moved r senderNonce u).account a ≠ none := by
  have hdebit : (u.debit r.sender r.value).account a ≠ none := account_update_ne_none h
  unfold moved
  cases r.recipient with
  | some recipient => exact account_update_ne_none hdebit
  | none => exact account_update_ne_none hdebit

/-- Without deletion of empty accounts, every account stays. -/
theorem Processed.account_ne_none (h : Processed config ctx t v u result final)
    (hkeeps : config.clearEmptyAccounts = false) {a : Address} (hthere : u.account a ≠ none) :
    final.account a ≠ none := by
  cases h with
  | refused fault => exact hthere
  | @ran st final kept reward hstatic hsender h howed =>
    have hcharged : (charged t.request (t.effectiveGasPrice ctx.header.basePrice)
        ctx.blobGasPrice u).account a ≠ none := account_update_ne_none hthere
    have hkept : kept.account a ≠ none := by
      cases hsuccess : st.result.isSuccessful with
      | false =>
        rw [h.undone hsuccess]
        exact hcharged
      | true =>
        have hnot : ¬ config.clearEmptyAccounts = true := by simp [hkeeps]
        rw [h.accounts hsuccess, cleared, if_neg hnot]
        exact account_moved_ne_none _ hcharged
    have hfinal : final.account a ≠ none := by
      rw [h.final]
      exact account_update_ne_none hkept
    -- Refund and reward only rewrite accounts.
    rw [Processor.rewarded_eq]
    split
    · exact hfinal
    · exact account_update_ne_none hfinal

/-- Where empty accounts are not deleted, none is. -/
theorem deletesOnlyBare_of_keeps (hkeeps : config.clearEmptyAccounts = false)
    (ctx : BlockContext) (v : Validation) (xs : List Transaction) {world : Accumulator}
    (hw : world.StandsOn view) (hr : view.Readable) :
    (processor config).DeletesOnlyBare ctx v world xs := by
  induction xs generalizing world with
  | nil => trivial
  | cons t rest ih =>
    obtain ⟨result, world', hrun, hw', hprocessed⟩ := runOn_process config ctx t v hw hr
    unfold Processor.DeletesOnlyBare
    rw [hrun]
    refine ⟨fun k hhad hgone => ?_, ih hw'.commit⟩
    exact absurd hgone (hprocessed.account_ne_none hkeeps hhad)

/-! ## Where no empty account holds a slot -/

/-- Whether there is an account that is empty. -/
def IsHollow (u : Snapshot) (a : Address) : Prop := (u.account a).any (·.isEmpty) = true

/-- Whether no empty account holds a slot. -/
def NoHollowSlots (u : Snapshot) : Prop := ∀ k, IsHollow u k.address → u.slot k = 0

/-- Whether accounts that are not empty stay there and stay so, and no empty one comes up. -/
structure Tidy (u v : Snapshot) : Prop where
  hollow : ∀ {a}, IsHollow v a → IsHollow u a
  gone : ∀ {a}, v.account a = none → u.account a = none ∨ IsHollow u a

theorem Tidy.refl (u : Snapshot) : Tidy u u := ⟨id, .inl⟩

theorem Tidy.trans (h₁ : Tidy u w) (h₂ : Tidy w x) : Tidy u x where
  hollow h := h₁.hollow (h₂.hollow h)
  gone h := (h₂.gone h).elim h₁.gone fun hw => .inr (h₁.hollow hw)

theorem Tidy.congr (h : Tidy u w) (haccount : x.account = w.account) : Tidy u x := by
  constructor
  · intro a ha
    unfold IsHollow at ha
    rw [haccount] at ha
    exact h.hollow ha
  · intro a ha
    rw [haccount] at ha
    exact h.gone ha

/-- It is enough to look at the one account that differs. -/
theorem tidy_of_ne {a : Address} (hother : ∀ b, b ≠ a → w.account b = u.account b)
    (hhollow : IsHollow w a → IsHollow u a)
    (hgone : w.account a = none → u.account a = none ∨ IsHollow u a) : Tidy u w := by
  constructor
  · intro b hb
    by_cases hab : b = a
    · subst hab
      exact hhollow hb
    · unfold IsHollow at hb ⊢
      rwa [← hother b hab]
  · intro b hb
    by_cases hab : b = a
    · subst hab
      exact hgone hb
    · exact .inl (by rw [← hother b hab, hb])

/-- Rewriting an account into one that is not empty. -/
theorem tidy_update {a : Address} {f : Account → Account}
    (h : (f ((u.account a).getD {})).isEmpty = false) : Tidy u (u.update a f) := by
  apply tidy_of_ne fun b hab => account_update_of_ne hab f
  · intro hempty
    rw [IsHollow, account_update_self, Option.any_some, h] at hempty
    cases hempty
  · intro hgone
    rw [account_update_self] at hgone
    cases hgone

/-- Deleting an account that was empty or not there to begin with, whatever became of it since. -/
theorem tidy_delete {a : Address} (hother : ∀ b, b ≠ a → w.account b = u.account b)
    (hbefore : u.account a = none ∨ IsHollow u a) : Tidy u (w.setAccount a none) := by
  apply tidy_of_ne (a := a)
  · intro b hab
    rw [account_setAccount_of_ne hab, hother b hab]
  · intro h
    rw [IsHollow, account_setAccount_self] at h
    cases h
  · exact fun _ => hbefore

theorem tidy_clear (u : Snapshot) (a : Address) : Tidy u (u.clear a) := by
  unfold Snapshot.clear
  split
  · rename_i hempty
    exact tidy_delete (fun _ _ => rfl) (.inr hempty)
  · exact .refl u

theorem isEmpty_of_nonce_ne {y : Account} (h : y.nonce ≠ 0) : y.isEmpty = false := by
  have hbeq : (y.nonce == 0) = false := beq_eq_false_iff_ne.mpr h
  unfold Account.isEmpty
  rw [hbeq, Bool.false_and, Bool.false_and]

/-- Crediting an account leaves it empty only if it was so or was not there. -/
theorem isHollow_of_credit {a : Address} {amount : Word}
    (h : IsHollow (u.credit a amount) a) : u.account a = none ∨ IsHollow u a := by
  rw [IsHollow, Snapshot.credit, account_update_self, Option.any_some] at h
  cases hy : u.account a with
  | none => exact .inl rfl
  | some y =>
    right
    rw [hy, Option.getD_some] at h
    simp only [Account.isEmpty, Bool.and_eq_true, beq_iff_eq] at h
    obtain ⟨⟨hnonce, hbalance⟩, hcode⟩ := h
    rw [IsHollow, hy, Option.any_some]
    simp only [Account.isEmpty, Bool.and_eq_true, beq_iff_eq]
    exact ⟨⟨hnonce, (satAdd_eq_zero hbalance).1⟩, hcode⟩

/-- Crediting an account and deleting it if it is empty even so. -/
theorem tidy_credit_clear (u : Snapshot) (a : Address) (amount : Word) :
    Tidy u ((u.credit a amount).clear a) := by
  by_cases hempty : IsHollow (u.credit a amount) a
  · have hcleared : (u.credit a amount).clear a = (u.credit a amount).setAccount a none :=
      if_pos hempty
    rw [hcleared]
    exact tidy_delete (fun b hab => account_update_of_ne hab _) (isHollow_of_credit hempty)
  · have hkept : (u.credit a amount).clear a = u.credit a amount := if_neg hempty
    rw [hkept]
    rw [IsHollow, Snapshot.credit, account_update_self, Option.any_some, Bool.not_eq_true]
      at hempty
    exact tidy_update hempty

/-- Crediting an account that has a nonce. -/
theorem tidy_credit_of_nonce {a : Address} (h : u.nonce a ≠ 0) (amount : Word) :
    Tidy u (u.credit a amount) :=
  tidy_update (isEmpty_of_nonce_ne h)

/-- A body that is kept, from the charge to the deletion of an empty target. -/
theorem tidy_cleared {r : TransactionRequest} (hclears : config.clearEmptyAccounts = true)
    (hnonce : u.nonce r.sender ≠ 0) (senderNonce : U64) :
    Tidy u (cleared config r senderNonce (moved r senderNonce u)) := by
  have hdebit : Tidy u (u.debit r.sender r.value) := tidy_update (isEmpty_of_nonce_ne hnonce)
  apply hdebit.trans
  unfold cleared moved target
  rw [if_pos hclears]
  cases r.recipient with
  | some recipient =>
    -- Of no value at all, the credit leaves a new recipient empty, and it is deleted at once.
    exact tidy_credit_clear _ _ _
  | none =>
    -- A new contract has a nonce.
    have hcreated : (createdAccount r.input r.value
        (((u.debit r.sender r.value).account (r.sender.created senderNonce)).getD {})).isEmpty =
          false := isEmpty_of_nonce_ne (by decide : (1 : U64) ≠ 0)
    exact (tidy_update hcreated).trans (tidy_clear _ _)

/-- A transaction whose sender's nonce does not wrap around is tidy. -/
theorem Processed.tidy (h : Processed config ctx t v u result final)
    (hclears : config.clearEmptyAccounts = true) (hcheck : v.checkNonce = true)
    (hnonce : t.request.nonce.toNat ≠ 2 ^ 64 - 1) : Tidy u final := by
  cases h with
  | refused fault => exact .refl u
  | @ran st final kept reward hstatic hsender h howed =>
    have hbefore : u.nonce t.request.sender = t.request.nonce :=
      nonce_of_senderFault hcheck hsender
    have hwrap : u.nonce t.request.sender + 1 ≠ 0 := hbefore ▸ nonce_succ_ne_zero hnonce
    have hcharged : Tidy u (charged t.request (t.effectiveGasPrice ctx.header.basePrice)
        ctx.blobGasPrice u) := tidy_update (isEmpty_of_nonce_ne hwrap)
    have hcounted : (charged t.request (t.effectiveGasPrice ctx.header.basePrice)
        ctx.blobGasPrice u).nonce t.request.sender ≠ 0 := by
      rw [nonce_charged, if_pos rfl]
      exact hwrap
    have hkept : Tidy u kept := by
      cases hsuccess : st.result.isSuccessful with
      | false =>
        rw [h.undone hsuccess]
        exact hcharged
      | true =>
        exact (hcharged.trans (tidy_cleared hclears hcounted _)).congr (h.accounts hsuccess)
    have hfinal : Tidy u final := by
      have hself : final.nonce t.request.sender ≠ 0 := by
        rw [(h.nonce_steps hwrap).1]
        exact hwrap
      rw [h.final, nonce_credit] at hself
      rw [h.final]
      exact hkept.trans (tidy_credit_of_nonce hself _)
    rw [Processor.rewarded_eq]
    split
    · exact hfinal
    · rename_i hskip
      -- A reward that is credited is not zero, so what it goes to is not empty afterwards.
      have hreward : reward ≠ 0 := fun hzero => hskip ⟨hzero, hclears⟩
      apply hfinal.trans
      apply tidy_update
      by_contra hempty
      rw [Bool.not_eq_false] at hempty
      exact hreward (satAdd_eq_zero (getD_of_isEmpty hempty).2).2

/-- A tidy transaction leaves no empty account with a slot and deletes none. -/
theorem Tidy.noHollowSlots (h : Tidy u w) (hcode : SlotsOfCode u w) (hu : NoHollowSlots u) :
    NoHollowSlots w ∧ u.LeavesNoSlots w := by
  -- An account without code has the slots that it had.
  have hframe : ∀ {k}, (w.account k.address).any (·.hasCode) ≠ true → w.slot k = u.slot k := by
    intro k hnot
    by_contra hne
    exact hnot (hcode k hne)
  constructor
  · intro k hhollow
    rw [hframe fun hk => not_isEmpty_of_hasCode hk hhollow]
    exact hu k (h.hollow hhollow)
  · intro k hhad hgone
    -- What is gone had been empty, and held no slot.
    have hhollow := (h.gone hgone).resolve_left hhad
    rw [hframe fun hk => by rw [hgone] at hk; cases hk]
    exact hu k hhollow

/-- From values without empty accounts that hold a slot, no account with a slot is deleted. -/
theorem deletesOnlyBare_of_noHollowSlots (hclears : config.clearEmptyAccounts = true)
    (ctx : BlockContext) (hcheck : v.checkNonce = true) {xs : List Transaction}
    (hnonces : ∀ t ∈ xs, t.request.nonce.toNat ≠ 2 ^ 64 - 1) {world : Accumulator}
    (hw : world.StandsOn view) (hr : view.Readable) (hu : NoHollowSlots world.values) :
    (processor config).DeletesOnlyBare ctx v world xs := by
  induction xs generalizing world with
  | nil => trivial
  | cons t rest ih =>
    obtain ⟨result, world', hrun, hw', hprocessed⟩ := runOn_process config ctx t v hw hr
    have htidy := hprocessed.tidy hclears hcheck (hnonces t List.mem_cons_self)
    obtain ⟨hhollow, hleaves⟩ := htidy.noHollowSlots hprocessed.slotsOfCode hu
    have hrest : ∀ t' ∈ rest, t'.request.nonce.toNat ≠ 2 ^ 64 - 1 :=
      fun t' ht' => hnonces t' (List.mem_cons_of_mem _ ht')
    unfold Processor.DeletesOnlyBare
    rw [hrun]
    exact ⟨hleaves, ih hrest hw'.commit hhollow⟩

/-! ## The boundary -/

/-- Transactions give the same results and leave the same accounts and slots, whether all of them
are run on one accumulator, or the state is persisted in between and the rest run on a fresh one.
It is enough for this that no account is deleted while it holds a slot. -/
theorem runOver_append (config : ProcessorConfig) (ctx : BlockContext) (v : Validation)
    (s : WorldState) (xs ys : List Transaction)
    (h : (processor config).DeletesOnlyBare ctx v (.ofView s.view) (xs ++ ys)) :
    let before := (processor config).runOver ctx v s xs
    let after := (processor config).runOver ctx v before.2 ys
    let whole := (processor config).runOver ctx v s (xs ++ ys)
    ∃ rx ry, before.1 = .ok rx ∧ after.1 = .ok ry ∧ whole.1 = .ok (rx ++ ry) ∧
      (∀ a, after.2.account? a = whole.2.account? a) ∧
      ∀ k, after.2.storageValue k = whole.2.storageValue k := by
  obtain ⟨rx, w₁, hxs, hw₁, hleaves₁⟩ := runOn_processEach config ctx v xs
    (Accumulator.standsOn_ofView s.view) s.readable_view
  obtain ⟨ry, w₂, hys, hw₂, hleaves₂⟩ := runOn_processEach config ctx v ys hw₁ s.readable_view
  obtain ⟨hbefore, hafter⟩ := (Processor.deletesOnlyBare_append hxs ys).mp h
  have hstart : s.view.values.LeavesNoSlots w₁.values := hleaves₁ hbefore _ (.refl _)
  have hend : s.view.values.LeavesNoSlots w₂.values := hleaves₂ hafter _ hstart
  have hlater : w₁.values.LeavesNoSlots w₂.values := hleaves₂ hafter _ (.refl _)
  -- The persisted state has the values of the accumulator, so the rest does the same on both.
  have hpersisted : (s.apply w₁.changes).view.values = w₁.values :=
    Accumulator.values_view_apply hw₁.sound hw₁.base hstart
  obtain ⟨ry', w₂', hys', hw₂', -⟩ := runOn_processEach config ctx v ys
    (Accumulator.standsOn_ofView (s.apply w₁.changes).view) (WorldState.readable_view _)
  obtain ⟨hresults, hvalues⟩ := (lawful_processor config).processEach_congr ctx v ys hw₁
    s.readable_view (Accumulator.standsOn_ofView (s.apply w₁.changes).view)
    (WorldState.readable_view _) hpersisted
  rw [hys, hys'] at hresults hvalues
  obtain rfl := Except.ok.inj hresults
  have hlast : w₂'.values = w₂.values := hvalues
  have hleft : ((s.apply w₁.changes).apply w₂'.changes).view.values = w₂.values := by
    rw [Accumulator.values_view_apply hw₂'.sound hw₂'.base, hlast]
    rw [hpersisted, hlast]
    exact hlater
  have hright : (s.apply w₂.changes).view.values = w₂.values :=
    Accumulator.values_view_apply hw₂.sound hw₂.base hend
  have hsame := hleft.trans hright.symm
  -- With all three runs known, what is left is to compare the last two states.
  simp only [Processor.runOver, hxs, Processor.runOn_processEach_append hxs, hys, hys', Except.map]
  refine ⟨rx, ry', rfl, rfl, rfl, fun a => ?_, fun k => ?_⟩
  · exact congrFun (congrArg Snapshot.account hsame) a
  · exact congrFun (congrArg Snapshot.slot hsame) k

/-! ## An empty account, deleted and paid -/

/-- A transfer of some value by an account that has sent none before. -/
def firstTransfer (sender recipient : Address) (value : Word) : Transaction :=
  { transferOf sender recipient 0 [] with
    request := { (transferOf sender recipient 0 []).request with value } }

/-- The payers with an empty account beside them, and a slot at `holder`. -/
def emptyBesidePayers (holder : Address) : WorldState :=
  (payersState.insertAccount 5 {}).setStorage ⟨holder, 0⟩ 7

/-- Where a payer holds the slot, the empty account is deleted without one. -/
theorem noHollowSlots_emptyBesidePayers : NoHollowSlots (emptyBesidePayers 2).view.values := by
  intro k hhollow
  have hbare : (payersState.insertAccount 5 {}).storageValue k = 0 := Std.ExtTreeMap.getD_empty
  have hslot : (emptyBesidePayers 2).view.values.slot k = if ⟨2, 0⟩ = k then 7 else 0 :=
    (WorldState.storageValue_setStorage (payersState.insertAccount 5 {}) ⟨2, 0⟩ k 7).trans
      (by rw [hbare])
  rw [hslot, if_neg]
  rintro rfl
  -- The payer is not empty.
  have hpayer : ((emptyBesidePayers 2).account? 2).any (·.isEmpty) = false := by decide +kernel
  have hempty : ((emptyBesidePayers 2).account? 2).any (·.isEmpty) = true := hhollow
  rw [hpayer] at hempty
  cases hempty

/-- The empty account is touched, deleted, persisted as absent, and paid afterwards. -/
theorem runOver_append_emptyBesidePayers :
    let p := processor { verifySignatures := false }
    let ctx := transfersBlock.context payersArchive
    let before := p.runOver ctx .full (emptyBesidePayers 2) [firstTransfer 1 5 0]
    let after := p.runOver ctx .full before.2 [firstTransfer 2 5 1]
    let whole := p.runOver ctx .full (emptyBesidePayers 2)
      [firstTransfer 1 5 0, firstTransfer 2 5 1]
    before.2.account? 5 = none ∧ whole.2.balance 5 = 1 ∧
      (∀ a, after.2.account? a = whole.2.account? a) ∧
      ∀ k, after.2.storageValue k = whole.2.storageValue k := by
  intro p ctx before after whole
  have hbare : p.DeletesOnlyBare ctx .full (.ofView (emptyBesidePayers 2).view)
      ([firstTransfer 1 5 0] ++ [firstTransfer 2 5 1]) :=
    deletesOnlyBare_of_noHollowSlots rfl ctx rfl (by decide +kernel)
      (Accumulator.standsOn_ofView _) (WorldState.readable_view _) noHollowSlots_emptyBesidePayers
  obtain ⟨rx, ry, -, -, -, haccounts, hslots⟩ := runOver_append { verifySignatures := false } ctx
    .full (emptyBesidePayers 2) [firstTransfer 1 5 0] [firstTransfer 2 5 1] hbare
  exact ⟨by decide +kernel, by decide +kernel, haccounts, hslots⟩

/-- Where the empty account holds the slot itself, persisting the state in between is seen: on one
accumulator the slot comes back with the account, across the boundary it is gone. -/
theorem boundary_seen_at_hollow :
    let p := processor { verifySignatures := false }
    let ctx := transfersBlock.context payersArchive
    let before := p.runOver ctx .full (emptyBesidePayers 5) [firstTransfer 1 5 0]
    let after := p.runOver ctx .full before.2 [firstTransfer 2 5 1]
    let whole := p.runOver ctx .full (emptyBesidePayers 5)
      [firstTransfer 1 5 0, firstTransfer 2 5 1]
    after.2.storageValue ⟨5, 0⟩ = 0 ∧ whole.2.storageValue ⟨5, 0⟩ = 7 := by
  decide +kernel

end Simple

end BlockExecution
