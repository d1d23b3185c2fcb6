/-
  No transaction is executed twice.

  Blocks are processed one on the state of the other, each in its own schedule.
  Every transaction of them carries the nonce of its sender and counts it up, and
  nothing takes a nonce down: `NoncesRise` says this of a stretch of a chain, and
  stretches can be put together.
-/
import BlockExecution.Proofs.Block.Independence
import BlockExecution.Proofs.Simple.Conservation
import BlockExecution.Proofs.Simple.Effect

namespace BlockExecution

open BlockExecution.Snapshot

/-! ## Chains of blocks -/

/-- A block of a chain with the archive that it is processed in and the schedule. -/
structure Link where
  archive : Archive
  block : Block
  schedule : Schedule

namespace Processor

/-- The values before the first transaction of a block and after each one. -/
def course (p : Processor) (link : Link) (parent : WorldState) : List Snapshot :=
  (List.range (link.block.transactions.length + 1)).map fun count =>
    (p.progressAfter link.archive link.block link.schedule parent count).2.world.values

/-- Accepted blocks, each processed on the state that the one before it left, from the state `s` on.
The snapshots are the values that were visited on the way, in order. -/
inductive Chain (p : Processor) : WorldState → List Link → List Snapshot → Prop
  | genesis (s : WorldState) : Chain p s [] [s.view.values]
  | block {s : WorldState} {link : Link} {o : BlockOutcome} {links : List Link}
      {visited : List Snapshot}
      (hparent : link.archive.state? link.block.header.parentHash = some s)
      (haccepted : (p.processBlock link.archive link.block link.schedule).outcome = .ok o)
      (hrest : Chain p o.state links visited) :
      Chain p s (link :: links) (p.course link s ++ visited)

end Processor

/-- The transactions that a chain executes, in order. -/
def executed (links : List Link) : List Transaction := links.flatMap (·.block.transactions)

namespace Simple

variable {config : ProcessorConfig} {u v w x : Snapshot} {t : Transaction}

/-! ## Rising nonces -/

/-- Whether no nonce goes down. -/
def NoncesLe (u v : Snapshot) : Prop := ∀ a, u.nonce a ≤ v.nonce a

theorem NoncesLe.refl (u : Snapshot) : NoncesLe u u := fun _ => BitVec.le_refl _

theorem NoncesLe.trans (h₁ : NoncesLe u v) (h₂ : NoncesLe v w) : NoncesLe u w :=
  fun a => BitVec.le_trans (h₁ a) (h₂ a)

/-- Whether two transactions that stand in this order are of different senders or have rising
nonces. -/
def Succeeds (t t' : Transaction) : Prop :=
  t.request.sender = t'.request.sender → t.request.nonce < t'.request.nonce

/-- A stretch from `u` to `v` on which `visited` was passed and `txs` executed. -/
structure NoncesRise (u : Snapshot) (visited : List Snapshot) (txs : List Transaction)
    (v : Snapshot) : Prop where
  le : NoncesLe u v
  above : ∀ w ∈ visited, NoncesLe u w
  below : ∀ w ∈ visited, NoncesLe w v
  visited : visited.Pairwise NoncesLe
  reached : ∀ t ∈ txs, u.nonce t.request.sender ≤ t.request.nonce
  passed : ∀ t ∈ txs, t.request.nonce < v.nonce t.request.sender
  executed : txs.Pairwise Succeeds

theorem NoncesRise.start (u : Snapshot) : NoncesRise u [u] [] u where
  le := .refl u
  above w hw := by
    rw [List.mem_singleton.mp hw]
    exact .refl u
  below w hw := by
    rw [List.mem_singleton.mp hw]
    exact .refl u
  visited := List.pairwise_singleton _ _
  reached t ht := absurd ht List.not_mem_nil
  passed t ht := absurd ht List.not_mem_nil
  executed := .nil

/-- A transaction that was executed is a stretch of its own. -/
theorem CountsUp.noncesRise (h : CountsUp t u v) (hnonce : t.request.nonce.toNat ≠ 2 ^ 64 - 1) :
    NoncesRise u [v] [t] v where
  le := h.mono
  above w hw := by
    rw [List.mem_singleton.mp hw]
    exact h.mono
  below w hw := by
    rw [List.mem_singleton.mp hw]
    exact .refl v
  visited := List.pairwise_singleton _ _
  reached t' ht' := by
    rw [List.mem_singleton.mp ht', h.before]
    exact BitVec.le_refl _
  passed t' ht' := by
    rw [List.mem_singleton.mp ht', h.after, BitVec.lt_def, toNat_nonce_succ hnonce]
    exact Nat.lt_succ_self _
  executed := List.pairwise_singleton _ _

/-- Stretches of which the second starts no lower than the first ends. -/
theorem NoncesRise.append {visited visited' : List Snapshot} {txs txs' : List Transaction}
    (h₁ : NoncesRise u visited txs v) (hle : NoncesLe v w) (h₂ : NoncesRise w visited' txs' x) :
    NoncesRise u (visited ++ visited') (txs ++ txs') x where
  le := (h₁.le.trans hle).trans h₂.le
  above y hy := by
    rcases List.mem_append.mp hy with hfirst | hsecond
    · exact h₁.above y hfirst
    · exact (h₁.le.trans hle).trans (h₂.above y hsecond)
  below y hy := by
    rcases List.mem_append.mp hy with hfirst | hsecond
    · exact ((h₁.below y hfirst).trans hle).trans h₂.le
    · exact h₂.below y hsecond
  visited := List.pairwise_append.mpr ⟨h₁.visited, h₂.visited, fun y hy z hz =>
    ((h₁.below y hy).trans hle).trans (h₂.above z hz)⟩
  reached t ht := by
    rcases List.mem_append.mp ht with hfirst | hsecond
    · exact h₁.reached t hfirst
    · exact BitVec.le_trans ((h₁.le.trans hle) _) (h₂.reached t hsecond)
  passed t ht := by
    rcases List.mem_append.mp ht with hfirst | hsecond
    · exact Std.lt_of_lt_of_le (h₁.passed t hfirst) ((hle.trans h₂.le) _)
    · exact h₂.passed t hsecond
  executed := List.pairwise_append.mpr ⟨h₁.executed, h₂.executed, fun t ht t' ht' hsame => by
    -- The first was passed before the second was reached.
    have hpassed := h₁.passed t ht
    have hreached := h₂.reached t' ht'
    rw [← hsame] at hreached
    exact Std.lt_of_lt_of_le hpassed (BitVec.le_trans (hle _) hreached)⟩

/-! ## Along a block -/

variable {link : Link} {s : WorldState} {o : BlockOutcome}

/-- What a block visits and executes up to a transaction. -/
theorem noncesRise_progressAfter
    (hparent : link.archive.state? link.block.header.parentHash = some s)
    (hnonces : ∀ t ∈ link.block.transactions, t.request.nonce.toNat ≠ 2 ^ 64 - 1)
    {count : Nat} (hcount : count ≤ link.block.transactions.length) {b : BlockProgress}
    (h : (processor config).progressAfter link.archive link.block link.schedule s count =
      (.ok (), b)) :
    NoncesRise s.view.values
      ((List.range (count + 1)).map fun i =>
        ((processor config).progressAfter link.archive link.block link.schedule s i).2.world.values)
      (link.block.transactions.take count) b.world.values := by
  -- Induction on the number of turns, along the course of the block.
  induction count generalizing b with
  | zero =>
    obtain rfl := (Prod.mk.inj h).2
    exact .start _
  | succ count ih =>
    obtain ⟨a, ha⟩ := Processor.progressAfter_ok_of_le (Nat.le_succ count) h
    have hlt : count < link.block.transactions.length := hcount
    have ht : link.block.transactions[count]? = some link.block.transactions[count] :=
      List.getElem?_eq_getElem hlt
    have hnonce := hnonces _ (List.getElem_mem hlt)
    obtain ⟨result, hexecuted, hprocessed⟩ := processed_progressAfter hparent ht ha h
    -- The last turn is a stretch of its own, after all turns before it.
    have hturn := (hprocessed.countsUp rfl hexecuted hnonce).noncesRise hnonce
    have hbefore := ih hlt.le ha
    rw [List.range_succ, List.map_append, List.map_singleton, h, List.take_add_one, ht,
      Option.toList_some]
    exact hbefore.append (.refl _) hturn

/-- What an accepted block visits and executes, up to the state it leaves. -/
theorem noncesRise_course
    (hparent : link.archive.state? link.block.header.parentHash = some s)
    (haccepted : ((processor config).processBlock link.archive link.block link.schedule).outcome =
      .ok o)
    (hnonces : ∀ t ∈ link.block.transactions, t.request.nonce.toNat ≠ 2 ^ 64 - 1) :
    ∃ v, NoncesRise s.view.values ((processor config).course link s) link.block.transactions v ∧
      NoncesLe v o.state.view.values := by
  rw [Processor.processBlock_of_state hparent] at haccepted
  rcases hrun : (processor config).progressAfter link.archive link.block link.schedule s
    link.block.transactions.length with ⟨answer, b⟩
  rw [hrun] at haccepted
  cases answer with
  | error e => cases haccepted
  | ok _ =>
    obtain rfl := Except.ok.inj haccepted
    have hrise := noncesRise_progressAfter hparent hnonces le_rfl hrun
    rw [List.take_length] at hrise
    refine ⟨b.world.values, hrise, fun a => ?_⟩
    have hstands : b.world.StandsOn s.view := (values_progressAfter hparent hrun).1
    -- The state that is left has the accounts of the last transaction.
    have haccount : (s.apply b.world.changes).account? a = b.world.values.account a :=
      Accumulator.account?_apply_changes hstands.sound hstands.base a
    show b.world.values.nonce a ≤ (((s.apply b.world.changes).account? a).getD {}).nonce
    rw [haccount]
    exact BitVec.le_refl _

/-! ## Along a chain -/

/-- What a chain visits and executes. -/
theorem noncesRise_chain {links : List Link} {visited : List Snapshot}
    (h : (processor config).Chain s links visited)
    (hnonces : ∀ t ∈ executed links, t.request.nonce.toNat ≠ 2 ^ 64 - 1) :
    ∃ v, NoncesRise s.view.values visited (executed links) v := by
  -- Induction along the chain: the course of the first block comes before all that follows.
  induction h with
  | genesis s => exact ⟨_, .start _⟩
  | @block s link o links visited hparent haccepted hrest ih =>
    obtain ⟨v, hcourse, hle⟩ := noncesRise_course hparent haccepted fun t ht =>
      hnonces t (List.mem_append_left _ ht)
    obtain ⟨x, hlater⟩ := ih fun t ht => hnonces t (List.mem_append_right _ ht)
    exact ⟨x, hcourse.append hle hlater⟩

/-- Along a chain of accepted blocks, whatever is taken over from speculation, no nonce goes down
from one transaction or block to any later one, of two transactions of one sender the later has the
greater nonce, and no transaction is executed twice. -/
theorem chain_replay_protection {links : List Link} {visited : List Snapshot}
    (h : (processor config).Chain s links visited)
    (hnonces : ∀ t ∈ executed links, t.request.nonce.toNat ≠ 2 ^ 64 - 1) :
    visited.Pairwise (fun u v => ∀ a, u.nonce a ≤ v.nonce a) ∧
    (executed links).Pairwise (fun t t' => t.request.sender = t'.request.sender →
      t.request.nonce < t'.request.nonce) ∧
    (executed links).Nodup := by
  obtain ⟨v, hrise⟩ := noncesRise_chain h hnonces
  refine ⟨hrise.visited, hrise.executed, hrise.executed.imp ?_⟩
  rintro t t' hsucceeds rfl
  exact BitVec.lt_irrefl _ (hsucceeds rfl)

/-! ## A chain of transfers -/

/-- The state after the block of transfers. -/
def transfersState : WorldState :=
  [(1, Account.plain 2 999621998), (2, .plain 1 999679927), (3, .plain 0 1), (4, .plain 0 2),
    (9, .plain 0 126000)].foldl (fun s entry => s.insertAccount entry.1 entry.2) ∅

/-- A block of two more transfers on that state. -/
def followingBlock : Block where
  header := { parentHash := 1, beneficiary := 9, gasLimit := 30000000, baseFee := some 7 }
  transactions := [transferOf 1 2 2 [], transferOf 2 1 1 []]

/-- An archive that keeps the state after the transfers. -/
def followingArchive : Archive := { states := (∅ : Table Hash WorldState).insert 1 transfersState }

/-- Both blocks, the first in parallel and the second in sequence. -/
def transfersChain : List Link :=
  [⟨payersArchive, transfersBlock, .parallel fun _ => true⟩,
    ⟨followingArchive, followingBlock, .sequential⟩]

/-- An accepted outcome, seen from what is computed of it. -/
theorem exists_ok_of_map {β : Type} {x : Except BlockError BlockOutcome} {f : BlockOutcome → β}
    {y : β} (h : x.toOption.map f = some y) : ∃ o, x = .ok o ∧ f o = y := by
  cases x with
  | error e => cases h
  | ok o => exact ⟨o, rfl, Option.some.inj h⟩

/-- Both blocks are accepted, the second on the state that the first one leaves. -/
theorem chain_transfers : ∃ visited,
    (processor { verifySignatures := false }).Chain payersState transfersChain visited := by
  have hfirst : ((processor { verifySignatures := false }).processBlock payersArchive
      transfersBlock (.parallel fun _ => true)).outcome.toOption.map (·.state) =
        some transfersState := by
    decide +kernel
  have hsecond : ((processor { verifySignatures := false }).processBlock followingArchive
      followingBlock .sequential).outcome.toOption.map (·.receipts.length) = some 2 := by
    decide +kernel
  have hparent : payersArchive.state? transfersBlock.header.parentHash = some payersState := by
    decide +kernel
  have hfollowing : followingArchive.state? followingBlock.header.parentHash =
      some transfersState := by
    decide +kernel
  obtain ⟨o, haccepted, hstate⟩ := exists_ok_of_map hfirst
  obtain ⟨o', haccepted', -⟩ := exists_ok_of_map hsecond
  rw [← hstate] at hfollowing
  have hlast : (processor { verifySignatures := false }).Chain o.state
      [⟨followingArchive, followingBlock, .sequential⟩] _ :=
    .block hfollowing haccepted' (.genesis o'.state)
  exact ⟨_, .block hparent haccepted hlast⟩

/-- Two blocks of transfers execute five transactions, each once. -/
theorem chain_replay_protection_transfers :
    (executed transfersChain).length = 5 ∧
    ∃ visited, (processor { verifySignatures := false }).Chain payersState transfersChain visited ∧
      visited.Pairwise (fun u v => ∀ a, u.nonce a ≤ v.nonce a) ∧
      (executed transfersChain).Pairwise (fun t t' => t.request.sender = t'.request.sender →
        t.request.nonce < t'.request.nonce) ∧
      (executed transfersChain).Nodup := by
  have hnonces : ∀ t ∈ executed transfersChain, t.request.nonce.toNat ≠ 2 ^ 64 - 1 := by
    decide +kernel
  obtain ⟨visited, hchain⟩ := chain_transfers
  exact ⟨rfl, visited, hchain, chain_replay_protection hchain hnonces⟩

end Simple

end BlockExecution
