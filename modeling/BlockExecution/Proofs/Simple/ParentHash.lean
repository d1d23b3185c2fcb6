/-
  What the instruction for the hash of the parent block stores.

  The slots after a block are those that its calls write, one instruction behind
  the other, where calls that fail count for nothing. An instruction that stores
  the hash of the parent takes it from the index of block hashes by number. The
  index keeps the block persisted last at each number, and neither moving the head
  nor pruning changes it. So on an archive with two blocks at the number of the
  parent the slot may hold the hash of the other one.
-/
import BlockExecution.Crypto.Keccak.Lemmas
import BlockExecution.Proofs.Simple.Decoding

namespace BlockExecution

open BlockExecution.Snapshot

/-! ## What an archive was built from -/

/-- Archives that come from their genesis by persisting, moving the head and pruning, with the
headers that were persisted, the newest first. -/
inductive Archive.Built : Archive → List Header → Prop
  | genesis (header : Header) (state : WorldState) :
      Built (.ofGenesis header state) [header]
  | persist {archive : Archive} {headers : List Header} (h : Built archive headers)
      (header : Header) (state : WorldState) :
      Built (archive.persist header state) (header :: headers)
  | setHead {archive : Archive} {headers : List Header} (h : Built archive headers)
      (hash : Hash) : Built (archive.setHead hash) headers
  | prune {archive : Archive} {headers : List Header} (h : Built archive headers)
      (hash : Hash) : Built (archive.prune hash) headers

theorem Archive.state?_persist (archive : Archive) (header : Header) (state : WorldState)
    (hash : Hash) :
    (archive.persist header state).state? hash =
      if header.hash = hash then some state else archive.state? hash := by
  unfold persist state?
  dsimp only
  rw [Std.ExtTreeMap.getElem?_insert]
  simp only [Std.LawfulEqOrd.compare_eq_iff_eq]

theorem Archive.state?_persist_self (archive : Archive) (header : Header) (state : WorldState) :
    (archive.persist header state).state? header.hash = some state := by
  rw [state?_persist, if_pos rfl]

theorem Archive.state?_setHead (archive : Archive) (head hash : Hash) :
    (archive.setHead head).state? hash = archive.state? hash := rfl

theorem Archive.blockHash?_persist (archive : Archive) (header : Header) (state : WorldState)
    (number : U64) :
    (archive.persist header state).blockHash? number =
      if header.number = number then some header.hash else archive.blockHash? number := by
  unfold persist blockHash?
  dsimp only
  rw [Std.ExtTreeMap.getElem?_insert]
  simp only [Std.LawfulEqOrd.compare_eq_iff_eq]

/-- The index answers with the block that was persisted last at a number. -/
theorem Archive.Built.blockHash?_eq {archive : Archive} {headers : List Header}
    (h : archive.Built headers) (number : U64) :
    archive.blockHash? number = (headers.find? (·.number == number)).map Header.hash := by
  have hnewest : ∀ (archive : Archive) (header : Header) (state : WorldState)
      (headers : List Header),
      archive.blockHash? number = (headers.find? (·.number == number)).map Header.hash →
      (archive.persist header state).blockHash? number =
        ((header :: headers).find? (·.number == number)).map Header.hash := by
    intro archive header state headers hrest
    rw [blockHash?_persist, List.find?_cons]
    by_cases hnumber : header.number = number
    · rw [if_pos hnumber, beq_iff_eq.mpr hnumber]
      rfl
    · rw [if_neg hnumber, beq_eq_false_iff_ne.mpr hnumber, hrest]
  -- A genesis is persisted on an empty archive; moving the head and pruning leave the index alone.
  induction h with
  | genesis header state => exact hnewest {} header state [] rfl
  | persist h header state ih => exact hnewest _ header state _ ih
  | setHead h hash ih => exact ih
  | prune h hash ih => exact ih

namespace Simple

variable {config : ProcessorConfig} {ctx : BlockContext} {t : Transaction} {v : Validation}
  {u w : Snapshot} {a : Address} {k : StorageKey}

/-! ## Instructions in order -/

/-- The instructions of a stream, up to what stops it. -/
def instructionsOf (stream : Bytes) : List Instruction :=
  match _h : Front.ofStream stream with
  | .finished | .revert _ | .malformed => []
  | .instruction i rest => i :: instructionsOf rest
  termination_by stream.length
  decreasing_by exact Front.rest_length_lt _h

theorem instructionsOf_eq (stream : Bytes) :
    instructionsOf stream =
      match Front.ofStream stream with
      | .finished | .revert _ | .malformed => []
      | .instruction i rest => i :: instructionsOf rest := by
  conv_lhs => unfold instructionsOf
  split <;> rename_i hfront <;> rw [hfront]

/-- They are those of the program that the stream spells. -/
theorem instructionsOf_of_spells {p : Program} {stream : Bytes} (h : p.Spells stream) :
    instructionsOf stream = p.instructions := by
  obtain ⟨instructions, stop⟩ := p
  induction instructions generalizing stream with
  | nil =>
    rw [instructionsOf_eq, (Program.spells_nil_iff.mp h).ofStream]
    cases stop <;> rfl
  | cons i rest ih =>
    obtain ⟨after, rfl, hafter⟩ := Program.spells_cons_iff.mp h
    rw [instructionsOf_eq, ofStream_instruction]
    exact congrArg (i :: ·) (ih hafter)

/-- The slot that an instruction of a contract uses. -/
def keyOf (x : Address × Instruction) : StorageKey := ⟨x.1, x.2.slot⟩

/-- The values after instructions of contracts, carried out in order. -/
def carriedOut (ctx : BlockContext) (steps : List (Address × Instruction)) (u : Snapshot) :
    Snapshot :=
  steps.foldl (fun u x => (x.2.performOn ctx x.1 u).2) u

theorem carriedOut_append (steps steps' : List (Address × Instruction)) (u : Snapshot) :
    carriedOut ctx (steps ++ steps') u = carriedOut ctx steps' (carriedOut ctx steps u) :=
  List.foldl_append

theorem slot_performOn (ctx : BlockContext) (x : Address × Instruction) (u : Snapshot) :
    (x.2.performOn ctx x.1 u).2.slot =
      match x.2.opcode with
      | .increment => Function.update u.slot (keyOf x) (u.slot (keyOf x) + 1)
      | .read => u.slot
      | .blockHash => Function.update u.slot (keyOf x) (parentHashWord ctx) := by
  obtain ⟨contract, opcode, slot⟩ := x
  cases opcode <;> rfl

/-- What instructions make of slots does not depend on accounts. -/
theorem slot_carriedOut_congr (steps : List (Address × Instruction)) (h : u.slot = w.slot) :
    (carriedOut ctx steps u).slot = (carriedOut ctx steps w).slot := by
  induction steps generalizing u w with
  | nil => exact h
  | cons x rest ih =>
    apply ih
    rw [slot_performOn, slot_performOn, h]

/-- A slot that instructions only read stays as it is. -/
theorem slot_carriedOut_of_read {steps : List (Address × Instruction)}
    (h : ∀ x ∈ steps, keyOf x = k → x.2.opcode = .read) (u : Snapshot) :
    (carriedOut ctx steps u).slot k = u.slot k := by
  induction steps generalizing u with
  | nil => rfl
  | cons x rest ih =>
    obtain ⟨hx, hrest⟩ := List.forall_mem_cons.mp h
    refine (ih hrest _).trans ?_
    rw [slot_performOn]
    by_cases hkey : keyOf x = k
    · rw [hx hkey]
    · have hne : k ≠ keyOf x := Ne.symm hkey
      cases x.2.opcode with
      | increment => exact Function.update_of_ne hne _ _
      | read => rfl
      | blockHash => exact Function.update_of_ne hne _ _

/-- Whether the last of the instructions that write a slot stores the hash of the parent there. -/
def StoresLast (steps : List (Address × Instruction)) (k : StorageKey) : Prop :=
  ∃ done later, steps = done ++ (k.address, ⟨.blockHash, k.slot⟩) :: later ∧
    ∀ x ∈ later, keyOf x = k → x.2.opcode = .read

theorem StoresLast.slot_carriedOut {steps : List (Address × Instruction)} (h : StoresLast steps k)
    (ctx : BlockContext) (u : Snapshot) :
    (carriedOut ctx steps u).slot k = parentHashWord ctx := by
  obtain ⟨done, later, rfl, hlater⟩ := h
  rw [carriedOut_append]
  refine (slot_carriedOut_of_read hlater _).trans ?_
  rw [slot_performOn]
  exact Function.update_self _ _ _

/-! ## Calls that are kept -/

/-- A stream that succeeds leaves what its instructions leave. -/
theorem streamOn_eq_carriedOut (ctx : BlockContext) (contract : Address) (gasLimit gasUsed : U64)
    (logs : List Log) (stream : Bytes) (u : Snapshot)
    (h : (streamOn ctx contract gasLimit gasUsed logs stream u).1.isFailed = false) :
    (streamOn ctx contract gasLimit gasUsed logs stream u).2 =
      carriedOut ctx ((instructionsOf stream).map (contract, ·)) u := by
  -- One case for each front of the stream, as in the recursion of both sides.
  induction gasUsed, logs, stream using runStream.induct gasLimit generalizing u with
  | case1 gasUsed logs stream hfront =>
    rw [streamOn_eq, instructionsOf_eq, hfront]
    rfl
  | case2 gasUsed logs stream data hfront =>
    rw [streamOn_eq, hfront] at h
    cases h
  | case3 gasUsed logs stream hfront =>
    rw [streamOn_eq, hfront] at h
    cases h
  | case4 gasUsed logs stream i rest hfront after hgas =>
    have hout : gasLimit < gasUsed + i.opcode.gas := hgas
    rw [streamOn_eq, hfront] at h
    simp only [if_pos hout] at h
    cases h
  | case5 gasUsed logs stream i rest hfront after hgas ih =>
    have hpaid : ¬ gasLimit < gasUsed + i.opcode.gas := hgas
    rw [streamOn_eq, hfront] at h ⊢
    simp only [if_neg hpaid] at h ⊢
    rw [instructionsOf_eq, hfront]
    exact ih _ _ h

/-- The instructions that a transaction carries out and keeps: those of a call of a contract that
succeeds. -/
def keptOf (config : ProcessorConfig) (ctx : BlockContext) (t : Transaction) (u : Snapshot) :
    List (Address × Instruction) :=
  match t.request.recipient with
  | some recipient =>
    if (meaning config ctx t u).1.isSuccessful && (u.account recipient).any (·.hasCode) then
      (instructionsOf t.request.input).map (recipient, ·)
    else []
  | none => []

theorem keptOf_of_successful {recipient : Address}
    (hrecipient : t.request.recipient = some recipient)
    (hcode : (u.account recipient).any (·.hasCode) = true)
    (hsuccess : (meaning config ctx t u).1.isSuccessful = true) :
    keptOf config ctx t u = (instructionsOf t.request.input).map (recipient, ·) := by
  rw [keptOf, hrecipient]
  dsimp only
  rw [hsuccess, hcode]
  rfl

/-- The instructions that transactions carry out and keep, in order. -/
def keptAlong (config : ProcessorConfig) (ctx : BlockContext) :
    List Transaction → Snapshot → List (Address × Instruction)
  | [], _ => []
  | t :: rest, u => keptOf config ctx t u ++ keptAlong config ctx rest (meaning config ctx t u).2

/-- The slots after a transaction are those that its kept instructions leave. -/
theorem Passes.slot_eq_carriedOut (h : Passes config ctx t .full u) :
    (meaning config ctx t u).2.slot = (carriedOut ctx (keptOf config ctx t u) u).slot := by
  have hsuccess : (meaning config ctx t u).1.isSuccessful = !(ranOn ctx t u).1.isFailed :=
    h.isSuccessful_processOn
  have hslot : (meaning config ctx t u).2.slot =
      if (ranOn ctx t u).1.isFailed then u.slot else (ranOn ctx t u).2.slot := h.slot_processOn
  rw [hslot, keptOf, hsuccess]
  cases hfailed : (ranOn ctx t u).1.isFailed with
  | true => cases t.request.recipient <;> rfl
  | false =>
    show (ranOn ctx t u).2.slot = _
    cases hrecipient : t.request.recipient with
    | none =>
      -- A creation moves its value and leaves all slots alone.
      show _ = u.slot
      unfold ranOn bodyOn
      rw [hrecipient]
      dsimp only
      split
      · rfl
      · exact slot_moved _ _ _
    | some recipient =>
      simp only [Bool.not_false, Bool.true_and]
      by_cases hcode : u.codeHash recipient = keccakEmpty
      · have hplain : ¬ (u.account recipient).any (·.hasCode) = true :=
          fun hany => any_hasCode_iff.mp hany hcode
        rw [if_neg hplain, ranOn_of_plain ctx hrecipient hcode]
        exact slot_moved _ _ _
      · obtain ⟨start, hstart, hran⟩ := ranOn_of_code ctx hrecipient hcode
        rw [hran] at hfailed
        rw [if_pos (any_hasCode_iff.mpr hcode), hran,
          streamOn_eq_carriedOut ctx recipient _ _ [] _ start hfailed]
        exact slot_carriedOut_congr _ hstart

/-! ## Contracts stay -/

/-- The value of a creation goes to an address without code. -/
theorem codeHash_moved {r : TransactionRequest} {senderNonce : U64}
    (hfree : r.recipient = none → IsFree u (r.sender.created senderNonce))
    (hcode : u.codeHash a ≠ keccakEmpty) : (moved r senderNonce u).codeHash a = u.codeHash a := by
  cases hr : r.recipient with
  | some recipient => exact (spends_moved hr senderNonce u).codeHash a
  | none =>
    have hne : a ≠ r.sender.created senderNonce := by
      rintro rfl
      apply hfree hr
      obtain ⟨x, hx, hany⟩ := (Option.any_eq_true _ _).mp (any_hasCode_iff.mpr hcode)
      rw [hx, Option.any_some, hany, Bool.or_true]
    have hmoved : moved r senderNonce u = (u.debit r.sender r.value).update
        (r.sender.created senderNonce) (createdAccount r.input r.value) := by
      simp only [moved, hr]
    rw [hmoved, Snapshot.codeHash, account_update_of_ne hne]
    exact (spends_debit u r.sender r.value).codeHash a

/-- No transaction changes the code of a contract. -/
theorem Passes.codeHash_eq (h : Passes config ctx t v u) (hcode : u.codeHash a ≠ keccakEmpty) :
    (processOn config ctx t v u).2.codeHash a = u.codeHash a := by
  obtain ⟨kept, hran⟩ := h.ran
  have hcharged : (startOn ctx t u).codeHash a = u.codeHash a := codeHash_startOn ctx t u a
  have hkept : kept.codeHash a = u.codeHash a := by
    cases hsuccess : (executionOn config ctx t (u.nonce t.request.sender) u).1.result.isSuccessful
      with
    | false =>
      rw [hran.undone hsuccess]
      exact hcharged
    | true =>
      have haccount := hran.accounts hsuccess
      -- The target of a creation was free, so it is not the contract.
      have hmoved := codeHash_moved (hran.free hsuccess) (hcharged.symm ▸ hcode)
      rw [Snapshot.codeHash, haccount]
      exact ((spends_cleared config _ _ _).codeHash a).trans (hmoved.trans hcharged)
  rw [h.processOn_eq]
  refine ((processor config).spends_rewarded _ _ _).codeHash a |>.trans ?_
  rw [hran.final]
  exact ((spends_credit _ _ _).codeHash a).trans hkept

/-- What a course leaves: the slots that its kept instructions leave, and every contract that was
there or that one of them ran on. -/
theorem course_eq_carriedOut {gasLimit gasUsed : U64} {transactions : List Transaction}
    {results : List ProcessingResult}
    (h : Course gasLimit (meaning config ctx) gasUsed u transactions results w) :
    w.slot = (carriedOut ctx (keptAlong config ctx transactions u) u).slot ∧
      (∀ a, u.codeHash a ≠ keccakEmpty → w.codeHash a ≠ keccakEmpty) ∧
      ∀ x ∈ keptAlong config ctx transactions u, w.codeHash x.1 ≠ keccakEmpty := by
  -- Induction on the course; no contract goes away on it.
  induction h with
  | nil => exact ⟨rfl, fun _ hcode => hcode, fun _ hx => absurd hx List.not_mem_nil⟩
  | @cons gasUsed u w t rest results hfits hexecuted hrest ih =>
    obtain ⟨hslots, hstay, hran⟩ := ih
    have hpasses : Passes config ctx t .full u := rejection?_processOn_eq_none_iff.mp hexecuted
    have hkept : ∀ a, u.codeHash a ≠ keccakEmpty → w.codeHash a ≠ keccakEmpty := by
      intro a hcode
      apply hstay
      rw [meaning, hpasses.codeHash_eq hcode]
      exact hcode
    refine ⟨?_, hkept, fun x hx => ?_⟩
    · rw [keptAlong, carriedOut_append, hslots]
      exact slot_carriedOut_congr _ hpasses.slot_eq_carriedOut
    · rcases List.mem_append.mp hx with hfirst | hlater
      · -- A call that is kept runs on a contract.
        unfold keptOf at hfirst
        split at hfirst
        · split at hfirst
          · rename_i recipient _ hcall
            obtain ⟨i, -, rfl⟩ := List.mem_map.mp hfirst
            exact hkept _ (any_hasCode_iff.mp (Bool.and_eq_true_iff.mp hcall).2)
          · cases hfirst
        · cases hfirst
      · exact hran x hlater

/-! ## Blocks -/

variable {archive : Archive} {headers : List Header} {header : Header} {block : Block}
  {schedule : Schedule} {parent : WorldState} {o : BlockOutcome}

/-- A slot into which the hash of the parent was stored last holds what the index has for the number
before the block. -/
theorem storageValue_of_storesLast (block : Block)
    (hparent : archive.state? block.header.parentHash = some parent)
    (ho : ((processor config).processBlock archive block schedule).outcome = .ok o)
    (hk : StoresLast (keptAlong config (block.context archive) block.transactions
      parent.view.values) k) :
    o.state.storageValue k = parentHashWord (block.context archive) := by
  obtain ⟨results, w, hcourse, hyields⟩ := course_of_processBlock hparent ho
  obtain ⟨hslots, -, hcode⟩ := course_eq_carriedOut hcourse
  have hmem : (k.address, ⟨.blockHash, k.slot⟩) ∈ keptAlong config (block.context archive)
      block.transactions parent.view.values := by
    obtain ⟨done, later, heq, -⟩ := hk
    rw [heq]
    exact List.mem_append_right _ List.mem_cons_self
  rw [hyields.slot, if_neg, hslots]
  · exact hk.slot_carriedOut _ _
  · -- The contract is still there, so its slots were not dropped with it.
    rintro ⟨-, hgone⟩
    apply hcode _ hmem
    rw [Snapshot.codeHash, hgone]
    rfl

theorem parentHashWord_of_built (block : Block) (hbuilt : archive.Built headers)
    (hheader : header ∈ headers)
    (hnumber : block.header.number.toNat = header.number.toNat + 1) :
    ∃ latest, headers.find? (·.number == header.number) = some latest ∧
      parentHashWord (block.context archive) = latest.hash := by
  have hbefore : block.header.number - 1 = header.number := by
    apply BitVec.eq_of_toNat_eq
    have hone : (1 : U64) ≤ block.header.number := by
      rw [BitVec.le_def, hnumber]
      exact Nat.le_add_left 1 _
    rw [BitVec.toNat_sub_of_le hone, hnumber]
    rfl
  have hpos : block.header.number ≠ 0 := by
    intro hzero
    rw [hzero] at hnumber
    exact Nat.succ_ne_zero _ hnumber.symm
  -- The index has an entry for the number, since the header was persisted under it.
  obtain ⟨latest, hlatest⟩ : ∃ latest, headers.find? (·.number == header.number) = some latest :=
    Option.isSome_iff_exists.mp (List.find?_isSome.mpr ⟨header, hheader, beq_self_eq_true _⟩)
  refine ⟨latest, hlatest, ?_⟩
  have hindex : archive.blockHash? (block.header.number - 1) = some latest.hash := by
    rw [hbuilt.blockHash?_eq, hbefore, hlatest]
    rfl
  show (if block.header.number = 0 then 0
    else (archive.blockHash? (block.header.number - 1)).getD 0) = _
  rw [if_neg hpos, hindex]
  rfl

/-- Where the instruction for the hash of the parent was the last to write a slot, the slot holds
the hash of the block that was persisted last at the number of the parent. It is the hash of the
parent exactly if that block has it. -/
theorem processBlock_parentHash (block : Block) (hbuilt : archive.Built headers)
    (hparent : archive.state? block.header.parentHash = some parent) (hheader : header ∈ headers)
    (hhash : header.hash = block.header.parentHash)
    (hnumber : block.header.number.toNat = header.number.toNat + 1)
    (ho : ((processor config).processBlock archive block schedule).outcome = .ok o) :
    ∃ latest, headers.find? (·.number == header.number) = some latest ∧
      ∀ k, StoresLast (keptAlong config (block.context archive) block.transactions
          parent.view.values) k →
        o.state.storageValue k = latest.hash ∧
          (o.state.storageValue k = block.header.parentHash ↔ latest.hash = header.hash) := by
  obtain ⟨latest, hlatest, hword⟩ := parentHashWord_of_built block hbuilt hheader hnumber
  refine ⟨latest, hlatest, fun k hk => ?_⟩
  have hvalue : o.state.storageValue k = latest.hash :=
    (storageValue_of_storesLast block hparent ho hk).trans hword
  exact ⟨hvalue, by rw [hvalue, hhash]⟩

/-! ## Two blocks at one number -/

/-- A block whose only transaction counts twice and stores the hash of the parent in between. -/
def countingBlock (parentHash : Hash) (number : U64) : Block where
  header := { parentHash, beneficiary := 9, gasLimit := 30000000, number, baseFee := some 7 }
  transactions := [countTwice [] 200000]

/-- The block is accepted, and the slot of the hash is not written again. -/
theorem exists_outcome_countingBlock {parentHash : Hash} (number : U64)
    (hparent : archive.state? parentHash = some counterState)
    (hpasses : Passes { verifySignatures := false }
      ((countingBlock parentHash number).context archive) (countTwice [] 200000) .full
      counterState.view.values) :
    ∃ o, ((processor { verifySignatures := false }).processBlock archive
        (countingBlock parentHash number) .sequential).outcome = .ok o ∧
      StoresLast (keptAlong { verifySignatures := false }
        ((countingBlock parentHash number).context archive)
        (countingBlock parentHash number).transactions counterState.view.values) ⟨5, 8⟩ := by
  have hspells : Program.Spells
      ⟨[⟨.increment, 7⟩, ⟨.blockHash, 8⟩, ⟨.increment, 7⟩], .finished⟩
      (countTwice [] 200000).request.input := ⟨[], rfl, .finished⟩
  have hcode : (counterState.view.values.account 5).any (·.hasCode) = true := by decide +kernel
  have hsuccess : (meaning { verifySignatures := false }
      ((countingBlock parentHash number).context archive) (countTwice [] 200000)
      counterState.view.values).1.isSuccessful = true := by
    rw [meaning, (hpasses.processOn_of_spells rfl hcode hspells (by decide) (by decide)).1,
      Program.result, if_neg (by decide)]
    rfl
  -- The course has a single turn, and what it keeps are the instructions of that call.
  have hcourse : Course (countingBlock parentHash number).header.gasLimit
      (meaning { verifySignatures := false } ((countingBlock parentHash number).context archive))
      0 counterState.view.values (countingBlock parentHash number).transactions _ _ :=
    .cons (show ¬ (30000000 - 0 : U64) < 200000 by decide)
      (rejection?_processOn_eq_none_iff.mpr hpasses) (.nil _ _)
  obtain ⟨o, ho, -⟩ := processBlock_of_course hparent .sequential hcourse
  refine ⟨o, ho, [(5, ⟨.increment, 7⟩)], [(5, ⟨.increment, 7⟩)], ?_, by decide⟩
  show keptOf _ _ (countTwice [] 200000) _ ++ [] = _
  rw [keptOf_of_successful rfl hcode hsuccess, instructionsOf_of_spells hspells]
  rfl

/-- Behind a genesis alone the slot holds the hash of the genesis. -/
theorem processBlock_parentHash_genesis :
    ∃ o, ((processor { verifySignatures := false }).processBlock
        (.ofGenesis {} counterState) (countingBlock ({} : Header).hash 1) .sequential).outcome =
          .ok o ∧
      o.state.storageValue ⟨5, 8⟩ = ({} : Header).hash := by
  have hparent : (Archive.ofGenesis {} counterState).state? ({} : Header).hash =
      some counterState := Archive.state?_persist_self {} _ _
  obtain ⟨o, ho, hstores⟩ := exists_outcome_countingBlock 1 hparent
    ⟨by decide +kernel, by decide +kernel⟩
  obtain ⟨latest, hlatest, hslots⟩ := processBlock_parentHash (countingBlock ({} : Header).hash 1)
    (.genesis {} counterState) hparent List.mem_cons_self rfl rfl ho
  obtain rfl : ({} : Header) = latest := Option.some.inj hlatest
  exact ⟨o, ho, (hslots _ hstores).1⟩

/-- A block of the chain. -/
def mainHeader : Header := { number := 1, timestamp := 12 }

/-- Another block at the same number. -/
def siblingHeader : Header := { number := 1, timestamp := 13 }

theorem hash_siblingHeader_ne : siblingHeader.hash ≠ mainHeader.hash := by
  rw [Header.hash, Header.hash, keccak256_eq, keccak256_eq]
  decide +kernel

/-- An archive that got both blocks, the sibling last, and whose head was moved back. -/
def forkedArchive : Archive :=
  (((Archive.ofGenesis {} counterState).persist mainHeader counterState).persist siblingHeader
    counterState).setHead mainHeader.hash

/-- On top of the block of the chain, the slot holds the hash of its sibling. -/
theorem processBlock_parentHash_forked :
    forkedArchive.Built [siblingHeader, mainHeader, {}] ∧
    forkedArchive.head = (countingBlock mainHeader.hash 2).header.parentHash ∧
    forkedArchive.state? (countingBlock mainHeader.hash 2).header.parentHash =
      some counterState ∧
    (countingBlock mainHeader.hash 2).header.number.toNat = mainHeader.number.toNat + 1 ∧
    ∃ o, ((processor { verifySignatures := false }).processBlock forkedArchive
        (countingBlock mainHeader.hash 2) .sequential).outcome = .ok o ∧
      StoresLast (keptAlong { verifySignatures := false }
        ((countingBlock mainHeader.hash 2).context forkedArchive)
        (countingBlock mainHeader.hash 2).transactions counterState.view.values) ⟨5, 8⟩ ∧
      o.state.storageValue ⟨5, 8⟩ = siblingHeader.hash ∧
      o.state.storageValue ⟨5, 8⟩ ≠ (countingBlock mainHeader.hash 2).header.parentHash := by
  have hbuilt : forkedArchive.Built [siblingHeader, mainHeader, {}] :=
    (((Archive.Built.genesis {} counterState).persist mainHeader counterState).persist
      siblingHeader counterState).setHead mainHeader.hash
  have hparent : forkedArchive.state? mainHeader.hash = some counterState := by
    rw [forkedArchive, Archive.state?_setHead, Archive.state?_persist, Archive.state?_persist_self,
      ite_self]
  obtain ⟨o, ho, hstores⟩ := exists_outcome_countingBlock 2 hparent
    ⟨by decide +kernel, by decide +kernel⟩
  obtain ⟨latest, hlatest, hword⟩ := parentHashWord_of_built (countingBlock mainHeader.hash 2)
    hbuilt (List.mem_cons_of_mem _ List.mem_cons_self) rfl
  obtain rfl : siblingHeader = latest := Option.some.inj hlatest
  have hvalue : o.state.storageValue ⟨5, 8⟩ = siblingHeader.hash :=
    (storageValue_of_storesLast (countingBlock mainHeader.hash 2) hparent ho hstores).trans hword
  exact ⟨hbuilt, rfl, hparent, rfl, o, ho, hstores, hvalue,
    fun hsame => hash_siblingHeader_ne (hvalue.symm.trans hsame)⟩

end Simple

end BlockExecution
