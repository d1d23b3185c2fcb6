/-
  What generated transactions are for.

  Whatever the random stream gives, a generated transaction is on one of four
  errands: it calls the reverter, adds one to a slot of the counter, tries to
  without the gas for it, or pays another account. It is sent by one of the
  accounts under the nonce that this account has come to. So a generated list of
  transactions is a chain of errands from a table of nonces.
-/
import BlockExecution.Proofs.State.Snapshot
import BlockExecution.Workload

namespace BlockExecution

/-! ## Draws -/

namespace Random.Stream

theorem nextBelowWithin_lt {n : Nat} (zone : Nat) (h : 0 < n) (tries : Nat) (s : Stream) :
    (s.nextBelowWithin n zone tries).1 < n := by
  induction tries generalizing s with
  | zero => exact h
  | succ tries ih =>
    rw [nextBelowWithin]
    dsimp only
    split
    · have hword : s.next64.1.toNat < 2 ^ 64 := s.next64.1.toNat_lt
      rw [Nat.shiftRight_eq_div_pow]
      exact Nat.div_lt_of_lt_mul (Nat.mul_lt_mul_of_pos_right hword h)
    · exact ih _

theorem nextBelowWithin_zero (zone tries : Nat) (s : Stream) :
    (s.nextBelowWithin 0 zone tries).1 = 0 := by
  induction tries generalizing s with
  | zero => rfl
  | succ tries ih =>
    rw [nextBelowWithin]
    dsimp only
    split
    · rw [Nat.mul_zero, Nat.zero_shiftRight]
    · exact ih _

/-- A draw below zero is zero. -/
theorem nextBelow_lt {m n : Nat} (hm : m ≤ n) (hn : 0 < n) (s : Stream) :
    (s.nextBelow m).1 < n := by
  rw [nextBelow]
  cases m with
  | zero =>
    rw [nextBelowWithin_zero]
    exact hn
  | succ m => exact (nextBelowWithin_lt _ m.succ_pos _ s).trans_le hm

end Random.Stream

namespace Workload

open BlockExecution.Random

variable {c : WorkloadConfig} {keys : List SigningKey} {nonces : Table Nat U64} {sender : Nat}

/-! ## Errands -/

/-- What a generated transaction is for. -/
inductive Errand where
  /-- To call the reverter. -/
  | revert
  /-- To add one to a slot of the counter. -/
  | count (slot : Word)
  /-- To run out of gas on the way to a slot of the counter. -/
  | starve (slot : Word)
  /-- To pay the account of this number. -/
  | pay (payee : Nat)

namespace Errand

def recipient (keys : List SigningKey) : Errand → Option Address
  | .revert => some reverter
  | .count _ => some counter
  | .starve _ => some counter
  | .pay payee => keys[payee]?.map (·.address)

def gasLimit : Errand → U64
  | .revert => callGasLimit
  | .count _ => callGasLimit
  | .starve _ => shortGasLimit
  | .pay _ => transferGasLimit

def value : Errand → Word
  | .pay _ => transferValue
  | _ => 0

def input : Errand → Bytes
  | .revert => [0xfd]
  | .count slot => incrementInput slot
  | .starve slot => incrementInput slot
  | .pay _ => []

/-- Whether a sender among so many accounts can be on an errand: nobody pays itself. -/
def Suits (accounts sender : Nat) : Errand → Prop
  | .pay payee => payee < accounts ∧ payee ≠ sender
  | _ => True

/-- The request of a sender on an errand. -/
def request (c : WorkloadConfig) (keys : List SigningKey) (sender : Address) (nonce : U64)
    (errand : Errand) : TransactionRequest where
  chainId := c.chainId
  nonce
  sender
  recipient := errand.recipient keys
  value := errand.value
  gasLimit := errand.gasLimit
  maxFee := BitVec.ofNat 128 (2 * baseFee)
  maxPriorityFee := BitVec.ofNat 128 baseFee
  input := errand.input

/-- The transaction of an account on an errand. -/
def transaction (c : WorkloadConfig) (keys : List SigningKey) (key : SigningKey) (nonce : U64)
    (errand : Errand) : Transaction :=
  key.sign (errand.request c keys key.address nonce)

end Errand

/-- Transactions on errands, where the table gives the nonce that each sender has come to. -/
inductive Errands (c : WorkloadConfig) (keys : List SigningKey) :
    Table Nat U64 → List Transaction → Prop
  | nil (nonces : Table Nat U64) : Errands c keys nonces []
  | cons {nonces : Table Nat U64} {sender : Nat} {key : SigningKey} {errand : Errand}
      {rest : List Transaction} (hkey : keys[sender]? = some key)
      (hsuits : errand.Suits keys.length sender)
      (hrest : Errands c keys (nonces.insert sender (nonces.getD sender 0 + 1)) rest) :
      Errands c keys nonces (errand.transaction c keys key (nonces.getD sender 0) :: rest)

/-! ## Kinds of transactions -/

/-- Whether a transaction is made to fail: it calls the reverter or carries too little gas. -/
def isFailure (t : Transaction) : Bool :=
  t.request.recipient == some reverter || t.request.gasLimit == shortGasLimit

/-- Whether a transaction calls the counter with enough gas. -/
def isCount (t : Transaction) : Bool :=
  t.request.recipient == some counter && t.request.gasLimit != shortGasLimit

/-- Whether accounts and contracts have addresses of their own. -/
structure Apart (keys : List SigningKey) : Prop where
  accounts : (keys.map (·.address)).Nodup
  fromCounter : ∀ key ∈ keys, key.address ≠ counter
  fromReverter : ∀ key ∈ keys, key.address ≠ reverter
  contracts : counter ≠ reverter

theorem apart_of_nodup (h : (keys.map (·.address) ++ [counter, reverter]).Nodup) :
    Apart keys := by
  obtain ⟨haccounts, hcontracts, hapart⟩ := List.nodup_append.mp h
  exact
    { accounts := haccounts
      fromCounter := fun key hkey =>
        hapart _ (List.mem_map_of_mem hkey) _ List.mem_cons_self
      fromReverter := fun key hkey =>
        hapart _ (List.mem_map_of_mem hkey) _ (List.mem_cons_of_mem _ List.mem_cons_self)
      contracts := fun heq => (List.nodup_cons.mp hcontracts).1 (heq ▸ List.mem_cons_self) }

theorem Apart.index_eq (hapart : Apart keys) {i j : Nat} {first second : SigningKey}
    (hi : keys[i]? = some first) (hj : keys[j]? = some second)
    (haddress : first.address = second.address) : i = j := by
  have hfirst : (keys.map (·.address))[i]? = some first.address := by
    rw [List.getElem?_map, hi]
    rfl
  have hsecond : (keys.map (·.address))[j]? = some first.address := by
    rw [List.getElem?_map, hj, haddress]
    rfl
  have hlt : i < (keys.map (·.address)).length := (List.getElem?_eq_some_iff.mp hfirst).1
  exact (List.getElem?_inj hlt hapart.accounts).mp (hfirst.trans hsecond.symm)

variable {errand : Errand}

namespace Errand

/-- Whether an errand is to fail. -/
def fails : Errand → Bool
  | .revert => true
  | .starve _ => true
  | _ => false

/-- Whether an errand is to add one to a slot. -/
def counts : Errand → Bool
  | .count _ => true
  | _ => false

theorem Suits.recipient_pay {payee : Nat} (h : (pay payee).Suits keys.length sender) :
    ∃ key ∈ keys, (pay payee).recipient keys = some key.address :=
  ⟨keys.get ⟨payee, h.1⟩, List.getElem_mem _, by
    rw [recipient, List.getElem?_eq_getElem h.1]
    rfl⟩

theorem Suits.recipient (h : errand.Suits keys.length sender) :
    ∃ a, errand.recipient keys = some a := by
  cases errand with
  | revert => exact ⟨_, rfl⟩
  | count slot => exact ⟨_, rfl⟩
  | starve slot => exact ⟨_, rfl⟩
  | pay payee =>
    obtain ⟨key, -, hpays⟩ := h.recipient_pay
    exact ⟨_, hpays⟩

theorem some_beq_some_of_ne {a b : Address} (h : a ≠ b) : (some a == some b) = false :=
  beq_eq_false_iff_ne.mpr fun heq => h (Option.some.inj heq)

theorem isFailure_transaction (hapart : Apart keys) (h : errand.Suits keys.length sender)
    (key : SigningKey) (nonce : U64) :
    isFailure (errand.transaction c keys key nonce) = errand.fails := by
  show (errand.recipient keys == some reverter || errand.gasLimit == shortGasLimit) = _
  have hcall : (callGasLimit == shortGasLimit) = false := by decide
  have htransfer : (transferGasLimit == shortGasLimit) = false := by decide
  cases errand with
  | revert =>
    rw [recipient, beq_self_eq_true, Bool.true_or]
    rfl
  | count slot =>
    rw [recipient, gasLimit, some_beq_some_of_ne hapart.contracts, hcall]
    rfl
  | starve slot =>
    rw [gasLimit, beq_self_eq_true, Bool.or_true]
    rfl
  | pay payee =>
    obtain ⟨other, hmem, hpays⟩ := h.recipient_pay
    rw [hpays, gasLimit, some_beq_some_of_ne (hapart.fromReverter other hmem), htransfer]
    rfl

theorem isCount_transaction (hapart : Apart keys) (h : errand.Suits keys.length sender)
    (key : SigningKey) (nonce : U64) :
    isCount (errand.transaction c keys key nonce) = errand.counts := by
  show (errand.recipient keys == some counter && errand.gasLimit != shortGasLimit) = _
  have hcall : (callGasLimit != shortGasLimit) = true := by decide
  cases errand with
  | revert =>
    rw [recipient, some_beq_some_of_ne hapart.contracts.symm, Bool.false_and]
    rfl
  | count slot =>
    rw [recipient, gasLimit, beq_self_eq_true, hcall]
    rfl
  | starve slot =>
    rw [gasLimit, bne_self_eq_false, Bool.and_false]
    rfl
  | pay payee =>
    obtain ⟨other, hmem, hpays⟩ := h.recipient_pay
    rw [hpays, some_beq_some_of_ne (hapart.fromCounter other hmem), Bool.false_and]
    rfl

end Errand

/-! ## Generation -/

theorem hotPoolSize_le (c : WorkloadConfig) : hotPoolSize c ≤ c.accountCount := by
  unfold hotPoolSize
  split
  · exact Nat.min_le_right _ _
  · exact Nat.le_refl _

/-- The request of a sender before it has an errand. -/
def opening (c : WorkloadConfig) (sender : Address) (nonce : U64) : TransactionRequest :=
  { chainId := c.chainId, nonce, sender
    maxFee := BitVec.ofNat 128 (2 * baseFee), maxPriorityFee := BitVec.ofNat 128 baseFee }

/-- The skip over the sender lands on another account of the pool. -/
theorem drawTransfer_fst {pool : Nat} (hpool : pool ≤ keys.length) (hpair : ¬ pool < 2)
    (address : Address) (nonce : U64) (s : Stream) : ∃ payee,
      (Errand.pay payee).Suits keys.length sender ∧
        (drawTransfer keys.toArray pool sender (opening c address nonce) s).1 =
          (Errand.pay payee).request c keys address nonce := by
  have hdrawn : (s.nextBelow (pool - 1)).1 < pool - 1 :=
    Stream.nextBelow_lt (Nat.le_refl _) (by omega) s
  have hskip : ∀ drawn < pool - 1,
      (Errand.pay (if drawn ≥ sender then drawn + 1 else drawn)).Suits keys.length sender := by
    intro drawn hlt
    show (if drawn ≥ sender then drawn + 1 else drawn) < keys.length ∧
      (if drawn ≥ sender then drawn + 1 else drawn) ≠ sender
    split <;> omega
  refine ⟨_, hskip _ hdrawn, ?_⟩
  rw [Errand.request, Errand.recipient, ← List.getElem?_toArray]
  rfl

/-- Every body is that of an errand. -/
theorem drawBody_fst {pool : Nat} (c : WorkloadConfig) (sender : Nat) (hpool : pool ≤ keys.length)
    (hot : Bool) (address : Address) (nonce : U64) (s : Stream) : ∃ errand : Errand,
      errand.Suits keys.length sender ∧
        (drawBody c keys.toArray hot pool sender (opening c address nonce) s).1 =
          errand.request c keys address nonce := by
  unfold drawBody
  dsimp only
  split
  · unfold drawFailure
    dsimp only
    split
    · exact ⟨.revert, trivial, rfl⟩
    · exact ⟨.starve (drawSlot c hot s.nextUnit.2.nextCoin.2).1, trivial, rfl⟩
  · split
    · exact ⟨.count (drawSlot c hot s.nextUnit.2).1, trivial, rfl⟩
    · rename_i hnot
      rw [Bool.or_eq_true, not_or, decide_eq_true_eq, decide_eq_true_eq] at hnot
      obtain ⟨payee, hpays⟩ := drawTransfer_fst hpool hnot.2 address nonce s.nextUnit.2
      exact ⟨.pay payee, hpays⟩

/-- Every transaction is an errand of one of the accounts, under the next nonce of that account. -/
theorem drawTransaction_eq (hkeys : keys.length = c.accountCount) (hsome : 0 < keys.length)
    (nonces : Table Nat U64) (s : Stream) : ∃ sender key errand next,
      keys[sender]? = some key ∧ Errand.Suits keys.length sender errand ∧
        drawTransaction c keys.toArray nonces s =
          (errand.transaction c keys key (nonces.getD sender 0),
            nonces.insert sender (nonces.getD sender 0 + 1), next) := by
  have hpool : (if s.nextUnit.1 < c.conflictFactor then hotPoolSize c else c.accountCount) ≤
      keys.length := by
    rw [hkeys]
    split
    · exact hotPoolSize_le c
    · exact Nat.le_refl _
  rw [drawTransaction]
  dsimp only
  generalize (if s.nextUnit.1 < c.conflictFactor then hotPoolSize c else c.accountCount) = pool
    at hpool ⊢
  -- The pool is no larger than the number of accounts, so the sender is one of them.
  have hsender := Stream.nextBelow_lt hpool hsome s.nextUnit.2
  generalize s.nextUnit.2.nextBelow pool = draw at hsender ⊢
  have hkey : keys[draw.1]? = some keys[draw.1] := List.getElem?_eq_getElem hsender
  obtain ⟨errand, hsuits, hrequest⟩ := drawBody_fst c draw.1 hpool
    (decide (s.nextUnit.1 < c.conflictFactor)) keys[draw.1].address (nonces.getD draw.1 0) draw.2
  rw [List.getElem?_toArray, hkey, Option.getD_some]
  rw [opening] at hrequest
  rw [hrequest]
  exact ⟨draw.1, _, errand, _, hkey, hsuits, rfl⟩

/-- Generated transactions are on errands. -/
theorem errands_drawTransactions (hkeys : keys.length = c.accountCount) (hsome : 0 < keys.length)
    (n : Nat) (nonces : Table Nat U64) (s : Stream) :
    Errands c keys nonces (drawTransactions c keys.toArray n nonces s) := by
  induction n generalizing nonces s with
  | zero => exact .nil nonces
  | succ n ih =>
    obtain ⟨sender, key, errand, next, hkey, hsuits, hdraw⟩ :=
      drawTransaction_eq hkeys hsome nonces s
    rw [drawTransactions, hdraw]
    exact .cons hkey hsuits (ih _ _)

theorem length_drawTransactions (c : WorkloadConfig) (keys : Array SigningKey) (n : Nat)
    (nonces : Table Nat U64) (s : Stream) :
    (drawTransactions c keys n nonces s).length = n := by
  induction n generalizing nonces s with
  | zero => rfl
  | succ n ih => rw [drawTransactions, List.length_cons, ih]

theorem length_keys_generate (c : WorkloadConfig) : (generate c).keys.length = c.accountCount := by
  rw [generate, List.length_map, List.length_range]

theorem length_generate (c : WorkloadConfig) : (generate c).transactions.length =
    if c.accountCount = 0 then 0 else c.transactionCount := by
  rw [generate, length_drawTransactions]
  simp [List.isEmpty_iff]

/-- A workload is on errands from the nonces of new accounts. -/
theorem errands_generate (c : WorkloadConfig) :
    Errands c (generate c).keys ∅ (generate c).transactions := by
  by_cases hsome : (generate c).keys = []
  · have hcount : c.accountCount = 0 := by rw [← length_keys_generate, hsome, List.length_nil]
    have hnone : (generate c).transactions = [] := by
      rw [← List.length_eq_zero_iff, length_generate, if_pos hcount]
    rw [hnone]
    exact .nil _
  · exact errands_drawTransactions (length_keys_generate c) (List.length_pos_iff.mpr hsome) _ _ _

end Workload

end BlockExecution
