/-
  Generated workloads are accepted by the slot processor.

  What the accounts start with pays for as many errands as a workload may hold, so
  along the block every sender goes on passing its checks: its nonce keeps step
  with the generator's table, and its balance goes down by one errand at a time.
  The block then fails just the transactions that are made to fail, and the slots
  of the counter add up to the number of counts.
-/
import BlockExecution.Crypto.Keccak.Lemmas
import BlockExecution.Proofs.Workload.Execution

namespace BlockExecution

namespace Workload

open BlockExecution.Simple BlockExecution.Snapshot

variable {c : WorkloadConfig} {keys : List SigningKey} {key : SigningKey} {sender : Nat}
  {errand : Errand} {config : ProcessorConfig} {ctx : BlockContext} {u : Snapshot}
  {nonces : Table Nat U64} {sent counted : Nat} {transactions : List Transaction}

/-! ## Turns -/

/-- What a processor and a block must have for the transactions of a workload. -/
structure Suited (c : WorkloadConfig) (keys : List SigningKey) (config : ProcessorConfig)
    (ctx : BlockContext) : Prop where
  base : ctx.header.basePrice = BitVec.ofNat 128 baseFee
  chain : config.chainId = c.chainId
  signed : config.verifySignatures = false ∨
    ∀ key ∈ keys, ∀ r, (key.sign r).signer = some key.address
  apart : Apart keys

/-- How accounts and contracts stand when `sent` transactions are through, `counted` of which were
counts, and the table gives the next nonces. -/
structure Standing (keys : List SigningKey) (nonces : Table Nat U64) (sent counted : Nat)
    (u : Snapshot) : Prop where
  deployed : Deployed keys u
  nonce : ∀ i key, keys[i]? = some key → u.nonce key.address = nonces.getD i 0
  funds : ∀ key ∈ keys, initialBalance.toNat ≤ (u.balance key.address).toNat + sent * allowance
  total : u.slotTotal counter = counted
  counted_le : counted ≤ sent

theorem nonce_insert (hapart : Apart keys) {i : Nat} {other : SigningKey} {nonce : U64}
    (hkey : keys[sender]? = some key) (hother : keys[i]? = some other) :
    (nonces.insert sender nonce).getD i 0 =
      if other.address = key.address then nonce else nonces.getD i 0 := by
  have hsame : sender = i ↔ other.address = key.address := by
    constructor
    · rintro rfl
      rw [hkey, Option.some.injEq] at hother
      rw [hother]
    · exact fun haddress => hapart.index_eq hkey hother haddress.symm
  simp only [Std.ExtTreeMap.getD_insert, Std.LawfulEqOrd.compare_eq_iff_eq, hsame]

/-- The transaction that is next passes its checks. -/
theorem Standing.passes (hsuited : Suited c keys config ctx)
    (h : Standing keys nonces sent counted u) (hsent : sent < 900000)
    (hkey : keys[sender]? = some key) (hsuits : errand.Suits keys.length sender) :
    Passes config ctx (errand.transaction c keys key (nonces.getD sender 0)) .full u := by
  have hmem : key ∈ keys := List.mem_of_getElem? hkey
  obtain ⟨recipient, hr⟩ := hsuits.recipient
  -- What so many errands left of the funds pays for one more.
  have hfunds : allowance ≤ (u.balance key.address).toNat := by
    have hleft := h.funds key hmem
    have hinitial : initialBalance.toNat = 1000000000000000000000 := rfl
    rw [hinitial] at hleft
    unfold allowance at hleft ⊢
    omega
  have hsigned : config.verifySignatures = false ∨ ∀ r, (key.sign r).signer = some key.address :=
    hsuited.signed.imp_right fun hsigns => hsigns key hmem
  exact ⟨staticFault_transaction hsuited.base hsuited.chain hsigned hr _,
    senderFault_transaction (h.nonce sender key hkey) (h.deployed.plain key hmem) hfunds _⟩

/-- It ends as it is meant to, and everything goes on standing as it should. -/
theorem Standing.turn (hsuited : Suited c keys config ctx)
    (h : Standing keys nonces sent counted u) (hsent : sent < 900000)
    (hkey : keys[sender]? = some key) (hsuits : errand.Suits keys.length sender) :
    let t := errand.transaction c keys key (nonces.getD sender 0)
    (processOn config ctx t .full u).1.isSuccessful = !isFailure t ∧
      Standing keys (nonces.insert sender (nonces.getD sender 0 + 1)) (sent + 1)
        (counted + if isCount t then 1 else 0) (processOn config ctx t .full u).2 := by
  intro t
  have hpasses : Passes config ctx t .full u := h.passes hsuited hsent hkey hsuits
  obtain ⟨recipient, hr⟩ := hsuits.recipient
  have hcalled := hpasses.called hr
  have hcost := cost_le_request c keys errand key.address (nonces.getD sender 0) ctx.blobGasPrice
  have htotal := h.total
  have hcounted := h.counted_le
  obtain ⟨hsuccess, hcounts⟩ := h.deployed.processOn hpasses hsuits (by omega)
  have hfailure : isFailure t = errand.fails :=
    Errand.isFailure_transaction hsuited.apart hsuits _ _
  have hcount : isCount t = errand.counts := Errand.isCount_transaction hsuited.apart hsuits _ _
  -- One nonce has gone up, and no balance has gone down by more than one errand.
  refine ⟨by rw [hfailure]; exact hsuccess, ?_⟩
  exact
    { deployed := h.deployed.congr hcalled.codeHash
      nonce := fun i other hother => by
        rw [hcalled.nonce, nonce_insert hsuited.apart hkey hother]
        show (if other.address = key.address then _ else _) = _
        split
        · rename_i hsame
          rw [hsame, h.nonce sender key hkey]
        · exact h.nonce i other hother
      funds := fun other hother => by
        have hbefore := h.funds other hother
        have hafter := (hcalled.balance other.address).trans (Nat.add_le_add_left hcost _)
        rw [Nat.succ_mul]
        omega
      total := by rw [hcount, ← htotal]; exact hcounts
      counted_le := by split <;> omega }

/-! ## The run of the block -/

/-- Transactions on errands that fit into the block go through, from any point at which accounts and
contracts stand as they should. -/
theorem Standing.course (hsuited : Suited c keys config ctx)
    (he : Errands c keys nonces transactions) {gasLimit gasUsed : U64}
    (h : Standing keys nonces sent counted u)
    (hsent : sent + transactions.length ≤ 900000)
    (hgas : gasUsed.toNat + (transactions.map (·.request.gasLimit.toNat)).sum ≤ gasLimit.toNat) :
    ∃ results w after, Course gasLimit (meaning config ctx) gasUsed u transactions results w ∧
      results.map (·.isSuccessful) = transactions.map (!isFailure ·) ∧
      Standing keys after (sent + transactions.length)
        (counted + transactions.countP isCount) w := by
  -- Induction on the errands; each turn leaves everything standing for the rest.
  induction he generalizing gasUsed sent counted u with
  | nil nonces => exact ⟨[], u, nonces, .nil _ _, rfl, h⟩
  | @cons nonces sender key errand rest hkey hsuits hrest ih =>
    rw [List.length_cons] at hsent ⊢
    have hpasses := h.passes hsuited (by omega) hkey hsuits
    obtain ⟨hsuccess, hnext⟩ := h.turn hsuited (by omega) hkey hsuits
    generalize errand.transaction c keys key (nonces.getD sender 0) = t at *
    rw [List.map_cons, List.sum_cons] at hgas
    have hexecuted : (meaning config ctx t u).1.rejection? = none :=
      rejection?_processOn_eq_none_iff.mpr hpasses
    have hused : (meaning config ctx t u).1.gasUsed.toNat ≤ t.request.gasLimit.toNat :=
      hpasses.gasUsed_le
    have hlimit : gasLimit.toNat < 2 ^ 64 := gasLimit.isLt
    have hfits : ¬ gasLimit - gasUsed < t.request.gasLimit := by
      have hle : gasUsed ≤ gasLimit := BitVec.le_def.mpr (by omega)
      rw [BitVec.lt_def, BitVec.toNat_sub_of_le hle]
      omega
    have hafter : (gasUsed + (meaning config ctx t u).1.gasUsed).toNat =
        gasUsed.toNat + (meaning config ctx t u).1.gasUsed.toNat :=
      BitVec.toNat_add_of_lt (by omega)
    have hrestfits : (gasUsed + (meaning config ctx t u).1.gasUsed).toNat +
        (rest.map (·.request.gasLimit.toNat)).sum ≤ gasLimit.toNat := by omega
    obtain ⟨results, w, after, hcourse, hresults, hstanding⟩ :=
      ih hnext (by omega) hrestfits
    refine ⟨_, w, after, .cons hfits hexecuted hcourse, ?_, ?_⟩
    · rw [List.map_cons, List.map_cons, hresults]
      exact congrArg (· :: _) hsuccess
    · rw [List.countP_cons, ← Nat.add_assoc, Nat.add_right_comm,
        Nat.add_comm (rest.countP isCount), ← Nat.add_assoc]
      exact hstanding

/-! ## The start of the chain -/

theorem account?_foldl_insertAccount (x : Account) (a : Address) (s : WorldState) :
    (keys.foldl (fun s key => s.insertAccount key.address x) s).account? a =
      if a ∈ keys.map (·.address) then some x else s.account? a := by
  induction keys generalizing s with
  | nil => rfl
  | cons key rest ih =>
    rw [List.foldl_cons, ih, WorldState.account?_insertAccount, List.map_cons]
    by_cases hrest : a ∈ rest.map (·.address)
    · rw [if_pos hrest, if_pos (List.mem_cons_of_mem _ hrest)]
    · simp only [hrest, if_false, List.mem_cons, or_false, eq_comm]

theorem storage_foldl_insertAccount (x : Account) (s : WorldState) :
    (keys.foldl (fun s key => s.insertAccount key.address x) s).storage = s.storage := by
  induction keys generalizing s with
  | nil => rfl
  | cons key rest ih => rw [List.foldl_cons, ih]; rfl

theorem keccak256_counterCode_ne : keccak256 counterCode ≠ keccakEmpty := by
  rw [keccak256_eq]
  decide +kernel

theorem keccak256_reverterCode_ne : keccak256 reverterCode ≠ keccakEmpty := by
  rw [keccak256_eq]
  decide +kernel

variable {w : Workload}

theorem account_genesisState (hapart : Apart w.keys) :
    w.genesisState.account? counter = some (.contract counterCode) ∧
      w.genesisState.account? reverter = some (.contract reverterCode) ∧
      ∀ key ∈ w.keys, w.genesisState.account? key.address = some (.plain 0 initialBalance) := by
  unfold genesisState
  simp only [WorldState.account?_insertAccount, account?_foldl_insertAccount]
  refine ⟨?_, if_pos trivial, fun key hkey => ?_⟩
  · rw [if_neg hapart.contracts.symm, if_pos trivial]
  · rw [if_neg (hapart.fromReverter key hkey).symm, if_neg (hapart.fromCounter key hkey).symm,
      if_pos (List.mem_map_of_mem hkey)]

theorem slot_genesisState (w : Workload) (k : StorageKey) : w.genesisState.storageValue k = 0 := by
  have hstorage : w.genesisState.storage = ∅ := by
    show (w.keys.foldl (fun s key => s.insertAccount key.address (Account.plain 0 initialBalance))
      (∅ : WorldState)).storage = ∅
    rw [storage_foldl_insertAccount]
    rfl
  rw [WorldState.storageValue, hstorage, Std.ExtTreeMap.getD_empty]

/-- Everything stands as it should at the start. -/
theorem standing_genesisState (hapart : Apart w.keys) :
    Standing w.keys ∅ 0 0 w.genesisState.view.values := by
  obtain ⟨hcounter, hreverter, hkeys⟩ := account_genesisState hapart
  have haccount : ∀ a, w.genesisState.view.values.account a = w.genesisState.account? a :=
    fun _ => rfl
  exact
    { deployed :=
        { counter := by
            rw [codeHash, haccount, hcounter]
            exact keccak256_counterCode_ne
          reverter := by
            rw [codeHash, haccount, hreverter]
            exact keccak256_reverterCode_ne
          plain := fun key hkey => by
            rw [codeHash, haccount, hkeys key hkey]
            rfl }
      nonce := fun i key hkey => by
        rw [Snapshot.nonce, haccount, hkeys key (List.mem_of_getElem? hkey),
          Std.ExtTreeMap.getD_empty]
        rfl
      funds := fun key hkey => by
        rw [Snapshot.balance, haccount, hkeys key hkey]
        exact Nat.le_add_right _ _
      total := Finset.sum_eq_zero fun slot _ =>
        congrArg BitVec.toNat (slot_genesisState w ⟨counter, slot⟩)
      counted_le := Nat.le_refl 0 }

/-! ## Room for gas -/

/-- The gas limits of errands are small. -/
theorem Errands.sum_gasLimit_le (he : Errands c keys nonces transactions) :
    (transactions.map (·.request.gasLimit.toNat)).sum ≤ 100000 * transactions.length := by
  induction he with
  | nil nonces => exact Nat.le_refl 0
  | @cons nonces sender key errand rest hkey hsuits hrest ih =>
    have hlimit : errand.gasLimit.toNat ≤ 100000 := by
      have hshort : shortGasLimit.toNat ≤ 100000 := by decide
      have htransfer : transferGasLimit.toNat ≤ 100000 := by decide
      cases errand with
      | revert => exact Nat.le_refl 100000
      | count slot => exact Nat.le_refl 100000
      | starve slot => exact hshort
      | pay payee => exact htransfer
    have hfirst : (errand.transaction c keys key (nonces.getD sender 0)).request.gasLimit =
      errand.gasLimit := rfl
    rw [List.map_cons, List.sum_cons, List.length_cons, hfirst]
    omega

theorem toNat_foldl_gasLimit (transactions : List Transaction) (total : U64)
    (h : total.toNat + (transactions.map (·.request.gasLimit.toNat)).sum < 2 ^ 64) :
    (transactions.foldl (fun total t => total + t.request.gasLimit) total).toNat =
      total.toNat + (transactions.map (·.request.gasLimit.toNat)).sum := by
  induction transactions generalizing total with
  | nil => rfl
  | cons t rest ih =>
    rw [List.map_cons, List.sum_cons] at h ⊢
    have hfirst : (total + t.request.gasLimit).toNat =
        total.toNat + t.request.gasLimit.toNat := BitVec.toNat_add_of_lt (by omega)
    rw [List.foldl_cons, ih _ (by omega), hfirst, Nat.add_assoc]

/-- The gas limit of the block has room for every transaction. -/
theorem sum_gasLimit_le_blockGasLimit
    (h : (w.transactions.map (·.request.gasLimit.toNat)).sum < 2 ^ 64) :
    (w.transactions.map (·.request.gasLimit.toNat)).sum ≤ w.blockGasLimit.toNat := by
  have hzero : (0 : U64).toNat = 0 := rfl
  have hsum := toNat_foldl_gasLimit w.transactions 0 (by omega)
  rw [hzero, Nat.zero_add] at hsum
  unfold blockGasLimit
  dsimp only
  rw [← hsum]
  split
  · rename_i hneeded
    exact Nat.le_of_lt hneeded
  · exact Nat.le_refl _

/-! ## Workloads -/

/-- A transaction that calls no contract pays an account other than its sender. -/
theorem Errands.pays (hapart : Apart keys) (he : Errands c keys nonces transactions) :
    ∀ t ∈ transactions, t.request.recipient ≠ some counter →
      t.request.recipient ≠ some reverter →
      ∃ payee ∈ keys, t.request.recipient = some payee.address ∧
        payee.address ≠ t.request.sender ∧ t.request.value = transferValue := by
  induction he with
  | nil nonces => exact fun t ht => absurd ht List.not_mem_nil
  | @cons nonces sender key errand rest hkey hsuits hrest ih =>
    intro t ht
    rcases List.mem_cons.mp ht with rfl | ht
    · intro hcounter hreverter
      cases errand with
      | revert => exact absurd rfl hreverter
      | count slot => exact absurd rfl hcounter
      | starve slot => exact absurd rfl hcounter
      | pay payee =>
        obtain ⟨other, hother⟩ : ∃ other, keys[payee]? = some other :=
          ⟨_, List.getElem?_eq_getElem hsuits.1⟩
        refine ⟨other, List.mem_of_getElem? hother, ?_, fun hsame => ?_, rfl⟩
        · show keys[payee]?.map (·.address) = _
          rw [hother]
          rfl
        · exact hsuits.2 (hapart.index_eq hother hkey hsame)
    · exact ih t ht

/-- A generated workload is a valid block that does what it says. Its transfers pay others than the
sender, and in every schedule its block is accepted, fails just what is made to fail and leaves the
counter at the number of counts. Nothing is asked of the address of the beneficiary. -/
theorem processBlock_generate (c : WorkloadConfig) (config : ProcessorConfig) (schedule : Schedule)
    (hcount : c.transactionCount ≤ 900000) (hchain : config.chainId = c.chainId)
    (hapart : ((generate c).keys.map (·.address) ++ [counter, reverter]).Nodup)
    (hsigned : config.verifySignatures = false ∨
      ∀ key ∈ (generate c).keys, ∀ r, (key.sign r).signer = some key.address) :
    let w := generate c
    (∀ t ∈ w.transactions, t.request.recipient ≠ some counter →
      t.request.recipient ≠ some reverter →
      ∃ payee ∈ w.keys, t.request.recipient = some payee.address ∧
        payee.address ≠ t.request.sender ∧ t.request.value = transferValue) ∧
    ∃ o, ((processor config).processBlock w.archive w.block schedule).outcome = .ok o ∧
      o.tally.failed = w.transactions.countP isFailure ∧
      o.tally.successful = w.transactions.countP (!isFailure ·) ∧
      o.state.slotTotal counter = w.transactions.countP isCount := by
  intro w
  have he : Errands c w.keys ∅ w.transactions := errands_generate c
  have hkeys : Apart w.keys := apart_of_nodup hapart
  refine ⟨he.pays hkeys, ?_⟩
  have hlength : w.transactions.length ≤ 900000 := by
    rw [length_generate]
    split
    · exact Nat.zero_le _
    · exact hcount
  have hlimits := he.sum_gasLimit_le
  have hsuited : Suited c w.keys config (w.block.context w.archive) :=
    { base := rfl
      chain := hchain
      signed := hsigned
      apart := hkeys }
  have hroom : (0 : U64).toNat + (w.transactions.map (·.request.gasLimit.toNat)).sum ≤
      w.block.header.gasLimit.toNat := by
    have hzero : (0 : U64).toNat = 0 := rfl
    rw [hzero, Nat.zero_add]
    exact sum_gasLimit_le_blockGasLimit (by omega)
  obtain ⟨results, v, after, hcourse, hresults, hstanding⟩ :=
    (standing_genesisState hkeys).course hsuited he (by omega) hroom
  have hparent : w.archive.state? w.block.header.parentHash = some w.genesisState :=
    Std.ExtTreeMap.getElem?_insert_self
  obtain ⟨o, haccepted, hyields⟩ := Simple.processBlock_of_course hparent schedule hcourse
  -- The counter is still there, so its slots were not dropped with it.
  have hcounter : ∀ slot, o.state.storageValue ⟨counter, slot⟩ = v.slot ⟨counter, slot⟩ := by
    intro slot
    rw [hyields.slot, if_neg]
    rintro ⟨-, hgone⟩
    exact hstanding.deployed.counter (by rw [codeHash, hgone]; rfl)
  refine ⟨o, haccepted, ?_, ?_, ?_⟩
  · have hfailures := congrArg (List.countP (!·)) hresults
    rw [List.countP_map, List.countP_map] at hfailures
    simp only [Function.comp_def, Bool.not_not] at hfailures
    exact hyields.failed.trans hfailures
  · have hsuccesses := congrArg (List.countP id) hresults
    rw [List.countP_map, List.countP_map] at hsuccesses
    exact hyields.successful.trans hsuccesses
  · rw [o.state.slotTotal_eq hcounter, hstanding.total, Nat.zero_add]

/-- A workload of two accounts and three transactions has its block accepted with three results. -/
theorem processBlock_generate_pair :
    let c : WorkloadConfig :=
      { accountCount := 2, transactionCount := 3, contractCallFactor := 0.5, failureFactor := 0.25 }
    ∃ o, ((processor { verifySignatures := false }).processBlock (generate c).archive
        (generate c).block (.parallel fun _ => true)).outcome = .ok o ∧
      o.tally.successful + o.tally.failed = 3 := by
  intro c
  have hapart : ((generate c).keys.map (·.address) ++ [counter, reverter]).Nodup := by
    decide +kernel
  obtain ⟨-, o, haccepted, hfailed, hsuccessful, -⟩ :=
    processBlock_generate c { verifySignatures := false } (.parallel fun _ => true)
      (by decide) rfl hapart (.inl rfl)
  have hlength : (generate c).transactions.length = 3 := length_generate c
  refine ⟨o, haccepted, ?_⟩
  rw [hsuccessful, hfailed, ← hlength, Nat.add_comm]
  simp [List.length_eq_countP_add_countP isFailure]

end Workload

end BlockExecution
