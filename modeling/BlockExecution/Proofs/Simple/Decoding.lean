/-
  Instruction streams as programs.

  A stream spells a program when it is the bytes of the program's instructions,
  one behind the other, and then a tail at which it stops. Every stream spells
  just one program. What a call does is said here in terms of that program alone:
  the cost of its instructions decides whether the gas suffices, its stop decides
  the rest, and slots and logs come from carrying the instructions out in order.
-/
import BlockExecution.Bytes.Lemmas
import BlockExecution.Proofs.Simple.Call
import BlockExecution.Proofs.Simple.Gas

namespace BlockExecution

open BlockExecution.Snapshot

/-! ## Slots of one account -/

namespace Snapshot

/-- The slots of an account. -/
def slotsOf (u : Snapshot) (a : Address) : Word → Word := fun slot => u.slot ⟨a, slot⟩

/-- Replaces the slots of an account. -/
def withSlots (u : Snapshot) (a : Address) (slots : Word → Word) : Snapshot :=
  { u with slot := fun k => if k.address = a then slots k.slot else u.slot k }

@[simp] theorem slotsOf_withSlots (u : Snapshot) (a : Address) (slots : Word → Word) :
    (u.withSlots a slots).slotsOf a = slots := by
  funext slot
  exact if_pos rfl

@[simp] theorem withSlots_withSlots (u : Snapshot) (a : Address) (slots slots' : Word → Word) :
    (u.withSlots a slots).withSlots a slots' = u.withSlots a slots' := by
  ext1
  · rfl
  · funext k
    simp only [withSlots]
    split <;> rfl

@[simp] theorem withSlots_slotsOf (u : Snapshot) (a : Address) :
    u.withSlots a (u.slotsOf a) = u := by
  ext1
  · rfl
  · funext k
    show (if k.address = a then u.slot ⟨a, k.slot⟩ else u.slot k) = u.slot k
    split
    · rename_i h
      rw [← h]
    · rfl

/-- Writing one slot of an account. -/
theorem setSlot_eq_withSlots (u : Snapshot) (a : Address) (slot x : Word) :
    u.setSlot ⟨a, slot⟩ x = u.withSlots a (Function.update (u.slotsOf a) slot x) := by
  ext1
  · rfl
  · funext k
    obtain ⟨b, l⟩ := k
    show Function.update u.slot ⟨a, slot⟩ x ⟨b, l⟩ =
      if b = a then Function.update (u.slotsOf a) slot x l else u.slot ⟨b, l⟩
    by_cases hb : b = a
    · subst hb
      rw [if_pos rfl]
      by_cases hl : l = slot
      · rw [hl, Function.update_self, Function.update_self]
      · have hne : (⟨b, l⟩ : StorageKey) ≠ ⟨b, slot⟩ := fun h => hl (StorageKey.mk.inj h).2
        rw [Function.update_of_ne hne, Function.update_of_ne hl]
        rfl
    · have hne : (⟨b, l⟩ : StorageKey) ≠ ⟨a, slot⟩ := fun h => hb (StorageKey.mk.inj h).1
      rw [if_neg hb, Function.update_of_ne hne]

end Snapshot

namespace Simple

variable {config : ProcessorConfig} {ctx : BlockContext} {t : Transaction} {v : Validation}
  {r : TransactionRequest} {u : Snapshot} {contract recipient : Address} {gasLimit gasUsed : U64}
  {stream tail : Bytes}

/-! ## Programs -/

/-- The byte of an opcode. -/
def Opcode.byte : Opcode → UInt8
  | .increment => 0x01
  | .read => 0x02
  | .blockHash => 0x40

/-- An instruction as it stands in a stream: its opcode and the thirty-two bytes of its slot. -/
def Instruction.bytes (i : Instruction) : Bytes := i.opcode.byte :: i.slot.bytes

/-- What a stream stops at. -/
inductive Stop where
  /-- Its end. -/
  | finished
  /-- A revert with its data. -/
  | revert (data : Bytes)
  /-- A byte that opens no instruction. -/
  | malformed
  deriving DecidableEq

/-- What the rest of a stream stops at, if it begins with no instruction. -/
inductive Stop.Heads : Stop → Bytes → Prop
  | finished : Heads .finished []
  | revert (data : Bytes) : Heads (.revert data) (0xfd :: data)
  | unknown {byte : UInt8} (hrevert : byte ≠ 0xfd) (hopcode : ∀ opcode : Opcode, byte ≠ opcode.byte)
      (rest : Bytes) : Heads .malformed (byte :: rest)
  | truncated (opcode : Opcode) {rest : Bytes} (h : rest.length < 32) :
      Heads .malformed (opcode.byte :: rest)

/-- Instructions in order, and what stops them. -/
structure Program where
  instructions : List Instruction
  stop : Stop
  deriving DecidableEq

/-- Whether a stream is the bytes of the instructions of a program and a tail at which it stops. -/
def Program.Spells (p : Program) (stream : Bytes) : Prop :=
  ∃ tail, stream = p.instructions.flatMap Instruction.bytes ++ tail ∧ p.stop.Heads tail

/-! ## The front of a stream -/

theorem ofByte?_eq_some_iff {byte : UInt8} {opcode : Opcode} :
    Opcode.ofByte? byte = some opcode ↔ byte = opcode.byte := by
  constructor
  · intro h
    unfold Opcode.ofByte? at h
    split at h
    case h_1 => cases h; rfl
    case h_2 => cases h; rfl
    case h_3 => cases h; rfl
    case h_4 => cases h
  · rintro rfl
    cases opcode <;> rfl

theorem byte_ne_revertByte (opcode : Opcode) : opcode.byte ≠ revertByte := by
  cases opcode <;> decide

theorem length_instructionBytes (i : Instruction) : i.bytes.length = 33 := by
  rw [Instruction.bytes, List.length_cons, Word.length_bytes]

/-- A stream that begins with the bytes of an instruction has it at its front. -/
theorem ofStream_instruction (i : Instruction) (rest : Bytes) :
    Front.ofStream (i.bytes ++ rest) = .instruction i rest := by
  have hlength := Word.length_bytes i.slot
  have hopcode : Opcode.ofByte? i.opcode.byte = some i.opcode := ofByte?_eq_some_iff.mpr rfl
  have hfull : ¬ (i.slot.bytes ++ rest).length < 32 := by
    rw [List.length_append, hlength]
    omega
  rw [Instruction.bytes, List.cons_append, Front.ofStream, if_neg (byte_ne_revertByte _)]
  simp only [hopcode]
  rw [if_neg hfull, List.take_left' hlength, List.drop_left' hlength, Word.ofBytes_bytes]

/-- And only such a stream does. -/
theorem eq_append_of_ofStream {i : Instruction} {rest : Bytes}
    (h : Front.ofStream stream = .instruction i rest) : stream = i.bytes ++ rest := by
  unfold Front.ofStream at h
  split at h
  · cases h
  · rename_i byte tail
    split at h
    · cases h
    · split at h
      · cases h
      · rename_i opcode hopcode
        split at h
        · cases h
        · rename_i hfull
          cases h
          -- Nothing was short, so the 32 bytes after the opcode are those of the slot.
          have hslot : (tail.take 32).length = 32 := by
            rw [List.length_take]
            omega
          rw [Instruction.bytes, Word.bytes_ofBytes hslot, ofByte?_eq_some_iff.mp hopcode,
            List.cons_append, List.take_append_drop]

/-- The front of a stream at which it stops. -/
def Stop.front : Stop → Front
  | .finished => .finished
  | .revert data => .revert data
  | .malformed => .malformed

theorem Stop.front_injective {stop stop' : Stop} (h : stop.front = stop'.front) :
    stop = stop' := by
  cases stop <;> cases stop' <;> cases h <;> rfl

theorem Stop.front_ne_instruction (stop : Stop) (i : Instruction) (rest : Bytes) :
    stop.front ≠ .instruction i rest := by
  cases stop <;> exact fun h => Front.noConfusion h

/-- A tail that begins with no instruction has its stop at the front. -/
theorem Stop.Heads.ofStream {stop : Stop} (h : stop.Heads tail) :
    Front.ofStream tail = stop.front := by
  cases h with
  | finished => rfl
  | revert data => rfl
  | unknown hrevert hopcode rest =>
    rename_i byte
    have hnone : Opcode.ofByte? byte = none := by
      rw [Option.eq_none_iff_forall_ne_some]
      intro opcode hsome
      exact hopcode opcode (ofByte?_eq_some_iff.mp hsome)
    have hnot : ¬ byte = revertByte := hrevert
    rw [Front.ofStream, if_neg hnot, hnone]
    rfl
  | truncated opcode hshort =>
    have hsome : Opcode.ofByte? opcode.byte = some opcode := ofByte?_eq_some_iff.mpr rfl
    rw [Front.ofStream, if_neg (byte_ne_revertByte opcode), hsome]
    exact if_pos hshort

/-- A stream with no instruction at its front has a stop there. -/
theorem exists_heads_of_ofStream (h : ∀ i rest, Front.ofStream stream ≠ .instruction i rest) :
    ∃ stop : Stop, stop.Heads stream := by
  cases stream with
  | nil => exact ⟨_, .finished⟩
  | cons byte rest =>
    by_cases hrevert : byte = 0xfd
    · subst hrevert
      exact ⟨_, .revert rest⟩
    · by_cases hopcode : ∀ opcode : Opcode, byte ≠ opcode.byte
      · exact ⟨_, .unknown hrevert hopcode rest⟩
      · obtain ⟨opcode, hbyte⟩ := not_forall.mp hopcode
        rw [ne_eq, not_not] at hbyte
        subst hbyte
        refine ⟨_, .truncated opcode ?_⟩
        -- With thirty-two bytes after it, the opcode would open an instruction.
        by_contra hfull
        have hslot : (rest.take 32).length = 32 := by
          rw [List.length_take]
          omega
        apply h ⟨opcode, Word.ofBytes (rest.take 32)⟩ (rest.drop 32)
        have hfront := ofStream_instruction ⟨opcode, Word.ofBytes (rest.take 32)⟩ (rest.drop 32)
        rwa [Instruction.bytes, Word.bytes_ofBytes hslot, List.cons_append,
          List.take_append_drop] at hfront

/-! ## One program for every stream -/

namespace Program

variable {p q : Program} {i : Instruction} {instructions : List Instruction} {stop : Stop}

theorem spells_nil_iff : Spells ⟨[], stop⟩ stream ↔ stop.Heads stream := by
  constructor
  · rintro ⟨tail, rfl, htail⟩
    exact htail
  · intro h
    exact ⟨stream, rfl, h⟩

theorem spells_cons_iff :
    Spells ⟨i :: instructions, stop⟩ stream ↔
      ∃ rest, stream = i.bytes ++ rest ∧ Spells ⟨instructions, stop⟩ rest := by
  constructor
  · rintro ⟨tail, rfl, htail⟩
    refine ⟨_, ?_, tail, rfl, htail⟩
    rw [List.flatMap_cons, List.append_assoc]
  · rintro ⟨rest, rfl, tail, rfl, htail⟩
    refine ⟨tail, ?_, htail⟩
    rw [List.flatMap_cons, List.append_assoc]

/-- Every stream spells a program. -/
theorem exists_spells (stream : Bytes) : ∃ p : Program, p.Spells stream := by
  -- Induction on the length: an instruction at the front leaves a shorter stream.
  induction hn : stream.length using Nat.strong_induction_on generalizing stream with
  | _ n ih =>
    subst hn
    by_cases hfront : ∃ i rest, Front.ofStream stream = .instruction i rest
    · obtain ⟨i, rest, hfront⟩ := hfront
      obtain ⟨p, hp⟩ := ih rest.length (Front.rest_length_lt hfront) rest rfl
      exact ⟨⟨i :: p.instructions, p.stop⟩,
        spells_cons_iff.mpr ⟨rest, eq_append_of_ofStream hfront, hp⟩⟩
    · have hnone : ∀ i rest, Front.ofStream stream ≠ .instruction i rest :=
        fun i rest h => hfront ⟨i, rest, h⟩
      obtain ⟨stop, hstop⟩ := exists_heads_of_ofStream hnone
      exact ⟨⟨[], stop⟩, spells_nil_iff.mpr hstop⟩

/-- And no two. -/
theorem Spells.unique (hp : p.Spells stream) (hq : q.Spells stream) : p = q := by
  obtain ⟨instructions, stop⟩ := p
  obtain ⟨instructions', stop'⟩ := q
  induction instructions generalizing instructions' stream with
  | nil =>
    have hfront := (spells_nil_iff.mp hp).ofStream
    cases instructions' with
    | nil =>
      have hfront' := (spells_nil_iff.mp hq).ofStream
      rw [Stop.front_injective (hfront.symm.trans hfront')]
    | cons i rest =>
      obtain ⟨after, rfl, -⟩ := spells_cons_iff.mp hq
      rw [ofStream_instruction] at hfront
      exact absurd hfront.symm (Stop.front_ne_instruction _ _ _)
  | cons i rest ih =>
    obtain ⟨after, rfl, hafter⟩ := spells_cons_iff.mp hp
    cases instructions' with
    | nil =>
      have hfront := (spells_nil_iff.mp hq).ofStream
      rw [ofStream_instruction] at hfront
      exact absurd hfront.symm (Stop.front_ne_instruction _ _ _)
    | cons j rest' =>
      -- The fronts are one instruction and one rest, and the rests spell one program.
      obtain ⟨after', heq, hafter'⟩ := spells_cons_iff.mp hq
      have hfront := ofStream_instruction i after
      rw [heq, ofStream_instruction] at hfront
      cases hfront
      cases ih hafter rest' hafter'
      rfl

theorem Spells.length_le (h : p.Spells stream) : 33 * p.instructions.length ≤ stream.length := by
  obtain ⟨tail, rfl, -⟩ := h
  have hbytes : (p.instructions.flatMap Instruction.bytes).length =
      33 * p.instructions.length := by
    rw [List.length_flatMap, List.map_congr_left fun i _ => length_instructionBytes i,
      List.map_const', List.sum_replicate, smul_eq_mul, Nat.mul_comm]
  rw [List.length_append, hbytes]
  exact Nat.le_add_right _ _

end Program

/-! ## What a program does -/

/-- What an instruction makes of the slots of its contract, where `parent` is the hash of the parent
block. -/
def Instruction.effect (parent : Word) (i : Instruction) (slots : Word → Word) : Word → Word :=
  match i.opcode with
  | .increment => Function.update slots i.slot (slots i.slot + 1)
  | .read => slots
  | .blockHash => Function.update slots i.slot parent

/-- The log entries of an instruction: an increment gives its slot and the new value there. -/
def Instruction.logs (contract : Address) (parent : Word) (i : Instruction)
    (slots : Word → Word) : List Log :=
  match i.opcode with
  | .increment => [⟨contract, [i.slot], (i.effect parent slots i.slot).bytes⟩]
  | .read | .blockHash => []

/-- The slots after instructions, carried out in order. -/
def slotsAfter (parent : Word) : List Instruction → (Word → Word) → Word → Word
  | [], slots => slots
  | i :: rest, slots => slotsAfter parent rest (i.effect parent slots)

/-- The log entries of instructions, carried out in order. -/
def logsOf (contract : Address) (parent : Word) : List Instruction → (Word → Word) → List Log
  | [], _ => []
  | i :: rest, slots =>
    i.logs contract parent slots ++ logsOf contract parent rest (i.effect parent slots)

/-- How a stop ends a transaction that has paid for all of its instructions. -/
def Stop.result (gasLimit : U64) (spent : Nat) (logs : List Log) : Stop → ProcessingResult
  | .finished => .successful (BitVec.ofNat 64 spent) logs
  | .revert data => .failed .revert (BitVec.ofNat 64 spent) (some data)
  | .malformed => .failed .invalidInstruction gasLimit none

/-- How a program ends a transaction that has used `start` gas before it, with the log entries
`logs` if it succeeds. -/
def Program.result (p : Program) (gasLimit : U64) (start : Nat) (logs : List Log) :
    ProcessingResult :=
  if gasLimit.toNat < start + costOf p.instructions then .failed .outOfGas gasLimit none
  else p.stop.result gasLimit (start + costOf p.instructions) logs

/-- Whether the running cost, within the limit before it, exceeds it at some instruction. -/
def Program.Overruns (p : Program) (start limit : Nat) : Prop :=
  ∃ done next later, p.instructions = done ++ next :: later ∧
    start + costOf done ≤ limit ∧ limit < start + costOf (done ++ [next])

/-- The running cost only grows, so it exceeds the limit at some instruction exactly if it does in
the end. -/
theorem Program.overruns_iff {instructions : List Instruction} {stop : Stop} {start limit : Nat}
    (hstart : start ≤ limit) :
    Overruns ⟨instructions, stop⟩ start limit ↔ limit < start + costOf instructions := by
  induction instructions generalizing start with
  | nil =>
    have hnil : costOf [] = 0 := rfl
    rw [hnil]
    constructor
    · rintro ⟨done, next, later, heq, -⟩
      cases done <;> cases heq
    · intro h
      omega
  | cons i rest ih =>
    have hone : costOf [i] = i.opcode.cost := rfl
    by_cases hfirst : limit < start + i.opcode.cost
    · -- It is exceeded at once.
      have hall : limit < start + costOf (i :: rest) := by
        rw [costOf_cons]
        omega
      exact iff_of_true ⟨[], i, rest, rfl, hstart, hfirst⟩ hall
    · rw [costOf_cons, ← Nat.add_assoc, ← ih (Nat.le_of_not_lt hfirst)]
      constructor
      · rintro ⟨done, next, later, heq, hbefore, hover⟩
        -- The first instruction is not the one, so it is among the rest.
        cases done with
        | nil =>
          cases heq
          exact absurd hover hfirst
        | cons j done =>
          cases heq
          rw [costOf_cons, ← Nat.add_assoc] at hbefore
          rw [List.cons_append, costOf_cons, ← Nat.add_assoc] at hover
          exact ⟨done, next, later, rfl, hbefore, hover⟩
      · rintro ⟨done, next, later, heq, hbefore, hover⟩
        refine ⟨i :: done, next, later, congrArg (i :: ·) heq, ?_, ?_⟩
        · rwa [costOf_cons, ← Nat.add_assoc]
        · rwa [List.cons_append, costOf_cons, ← Nat.add_assoc]

/-! ## Streams of programs -/

theorem performOn_eq (ctx : BlockContext) (contract : Address) (i : Instruction) (u : Snapshot) :
    i.performOn ctx contract u =
      (i.logs contract (parentHashWord ctx) (u.slotsOf contract),
        u.withSlots contract (i.effect (parentHashWord ctx) (u.slotsOf contract))) := by
  unfold Instruction.performOn Instruction.logs Instruction.effect
  cases i.opcode with
  | increment =>
    simp only [setSlot_eq_withSlots, Function.update_self]
    rfl
  | read => simp only [withSlots_slotsOf]
  | blockHash => simp only [setSlot_eq_withSlots]

theorem result_eq_of_within {p : Program} {start : Nat} (hstart : start ≤ gasLimit.toNat)
    (hnone : p.instructions = []) (logs : List Log) :
    p.result gasLimit start logs = p.stop.result gasLimit start logs := by
  have hcost : start + costOf p.instructions = start := by rw [hnone]; rfl
  rw [Program.result, hcost, if_neg (Nat.not_lt.mpr hstart)]

/-- A stream ends as its program says, and if it succeeds it leaves the slots that the program
leaves. -/
theorem streamOn_of_spells {instructions : List Instruction} {stop : Stop}
    (h : Program.Spells ⟨instructions, stop⟩ stream) (hlimit : gasUsed ≤ gasLimit)
    (hword : gasUsed.toNat + costOf instructions < 2 ^ 64) (ctx : BlockContext)
    (contract : Address) (logs : List Log) (u : Snapshot) :
    (streamOn ctx contract gasLimit gasUsed logs stream u).1.result =
        Program.result ⟨instructions, stop⟩ gasLimit gasUsed.toNat
          (logs ++ logsOf contract (parentHashWord ctx) instructions (u.slotsOf contract)) ∧
      ((streamOn ctx contract gasLimit gasUsed logs stream u).1.isFailed = false →
        (streamOn ctx contract gasLimit gasUsed logs stream u).2 =
          u.withSlots contract
            (slotsAfter (parentHashWord ctx) instructions (u.slotsOf contract))) := by
  -- Induction on the instructions; each moves the gas, the logs and the slots on.
  induction instructions generalizing stream gasUsed logs u with
  | nil =>
    have hused : BitVec.ofNat 64 gasUsed.toNat = gasUsed := by
      rw [BitVec.ofNat_toNat, BitVec.setWidth_eq]
    rw [streamOn_eq, (Program.spells_nil_iff.mp h).ofStream,
      result_eq_of_within (BitVec.le_def.mp hlimit) rfl]
    cases stop with
    | finished =>
      refine ⟨?_, fun _ => (withSlots_slotsOf u contract).symm⟩
      simp only [Stop.front, BodyOutcome.result, Stop.result, hused, logsOf, List.append_nil]
    | revert data =>
      refine ⟨?_, fun hkept => Bool.noConfusion hkept⟩
      simp only [Stop.front, BodyOutcome.result, Stop.result, hused]
    | malformed => exact ⟨rfl, fun hkept => Bool.noConfusion hkept⟩
  | cons i rest ih =>
    obtain ⟨after, rfl, hafter⟩ := Program.spells_cons_iff.mp h
    rw [costOf_cons] at hword
    have hgas : (gasUsed + i.opcode.gas).toNat = gasUsed.toNat + i.opcode.cost := by
      rw [BitVec.toNat_add_of_lt, Opcode.toNat_gas]
      rw [Opcode.toNat_gas]
      omega
    have hsum : gasUsed.toNat + costOf (i :: rest) =
        (gasUsed + i.opcode.gas).toNat + costOf rest := by
      rw [costOf_cons, hgas, Nat.add_assoc]
    rw [streamOn_eq, ofStream_instruction]
    dsimp only
    by_cases hover : gasLimit < gasUsed + i.opcode.gas
    · have hexceeds : gasLimit.toNat < gasUsed.toNat + costOf (i :: rest) := by
        have hnat := BitVec.lt_def.mp hover
        omega
      rw [if_pos hover, Program.result, if_pos hexceeds]
      exact ⟨rfl, fun hkept => Bool.noConfusion hkept⟩
    · obtain ⟨hresult, hslots⟩ := ih hafter (BitVec.not_lt.mp hover) (by omega)
        (logs ++ (i.performOn ctx contract u).1) (i.performOn ctx contract u).2
      rw [if_neg hover]
      simp only [performOn_eq, slotsOf_withSlots, withSlots_withSlots, List.append_assoc]
        at hresult hslots ⊢
      refine ⟨?_, hslots⟩
      rw [hresult, Program.result, Program.result, hsum]
      rfl

/-! ## Calls -/

/-- The result of a transaction that passed its checks is that of its body. -/
theorem Passes.result_processOn (h : Passes config ctx t v u) :
    (processOn config ctx t v u).1 = (ranOn ctx t u).1.result := by
  rw [h.processOn_eq]
  rfl

/-- The call of a contract does what the program in its input does: the program decides how it ends,
and its slots are kept if it succeeds. -/
theorem Passes.processOn_of_spells (h : Passes config ctx t v u)
    (hrecipient : t.request.recipient = some recipient)
    (hcode : (u.account recipient).any (·.hasCode) = true) {p : Program}
    (hp : p.Spells t.request.input) (hstart : intrinsicCost t.request < 2 ^ 64)
    (hword : intrinsicCost t.request + costOf p.instructions < 2 ^ 64) :
    let result := p.result t.request.gasLimit (intrinsicCost t.request)
      (logsOf recipient (parentHashWord ctx) p.instructions (u.slotsOf recipient))
    (processOn config ctx t v u).1 = result ∧
      (processOn config ctx t v u).2.slot =
        if result.isSuccessful then
          (u.withSlots recipient (slotsAfter (parentHashWord ctx) p.instructions
            (u.slotsOf recipient))).slot
        else u.slot := by
  intro result
  -- The stream starts with the value already moved, which changes no slot.
  obtain ⟨start, hslot, hran⟩ := ranOn_of_code ctx hrecipient (any_hasCode_iff.mp hcode)
  have hslots : start.slotsOf recipient = u.slotsOf recipient := by
    unfold slotsOf
    rw [hslot]
  have hgas := toNat_intrinsicGas hstart
  have hlimit := intrinsicGas_le_of_staticFault h.static
  rw [← hgas] at hword
  obtain ⟨hresult, hkept⟩ := streamOn_of_spells hp hlimit hword ctx recipient [] start
  rw [← hran, hgas, List.nil_append, hslots] at hresult
  rw [← hran, hslots] at hkept
  have hsuccess : result.isSuccessful = !(ranOn ctx t u).1.isFailed := by
    rw [← isSuccessful_result, hresult]
  refine ⟨by rw [h.result_processOn, hresult], ?_⟩
  rw [h.slot_processOn, hsuccess]
  cases hfailed : (ranOn ctx t u).1.isFailed with
  | true => rfl
  | false =>
    show (ranOn ctx t u).2.slot = _
    rw [hkept hfailed, withSlots, hslot]
    rfl

/-- A call of a contract means its decoding. The input spells one program. If its running cost,
from the gas charged beforehand on, exceeds the gas limit at an instruction, the call is out of gas;
otherwise its stop decides, with the gas and the logs of all instructions. If it succeeds, the slots
of the recipient are those after the instructions; all other slots are left alone. -/
theorem process_call_decoded {w : Accumulator} (hs : w.Sound) (hr : w.base.Readable)
    (hpasses : Passes config ctx t v w.values) (hrecipient : t.request.recipient = some recipient)
    (hcode : (w.values.account recipient).any (·.hasCode) = true)
    (hinput : t.request.input.length < 2 ^ 40) (hlist : t.request.accessList.length < 2 ^ 40)
    (hkeys : (t.request.accessList.map fun item => item.storageKeys.length).sum < 2 ^ 40) :
    ∃ p : Program, (∀ q : Program, q.Spells t.request.input ↔ q = p) ∧
      ∃ result w', ((processor config).process ctx t v).runOn w = (.ok result, w') ∧
        (p.Overruns (intrinsicCost t.request) t.request.gasLimit.toNat →
          result = .failed .outOfGas t.request.gasLimit none) ∧
        (¬ p.Overruns (intrinsicCost t.request) t.request.gasLimit.toNat →
          result = p.stop.result t.request.gasLimit
            (intrinsicCost t.request + costOf p.instructions)
            (logsOf recipient (parentHashWord ctx) p.instructions
              (w.values.slotsOf recipient))) ∧
        w'.values.slot =
          if result.isSuccessful then
            (w.values.withSlots recipient (slotsAfter (parentHashWord ctx) p.instructions
              (w.values.slotsOf recipient))).slot
          else w.values.slot := by
  obtain ⟨p, hp⟩ := Program.exists_spells t.request.input
  have hstart := intrinsicCost_lt hinput hlist hkeys
  -- The length of the input bounds the cost, so no sum of gas wraps around.
  have hcost := costOf_le p.instructions
  have hlength := hp.length_le
  have hlimit : intrinsicCost t.request ≤ t.request.gasLimit.toNat := by
    rw [← toNat_intrinsicGas (by omega)]
    exact intrinsicGas_le_of_staticFault hpasses.static
  have hoverruns : p.Overruns (intrinsicCost t.request) t.request.gasLimit.toNat ↔
      t.request.gasLimit.toNat < intrinsicCost t.request + costOf p.instructions :=
    Program.overruns_iff hlimit
  obtain ⟨hresult, hslot⟩ :=
    hpasses.processOn_of_spells hrecipient hcode hp (by omega) (by omega)
  obtain ⟨w', hrun, -, hvalues⟩ := (gives_process config ctx t v w.values).run hs hr
  refine ⟨p, fun q => ⟨fun hq => hq.unique hp, fun h => h ▸ hp⟩, _, w', hrun, ?_, ?_, ?_⟩
  · intro hover
    rw [hresult, Program.result, if_pos (hoverruns.mp hover)]
  · intro hpaid
    rw [hresult, Program.result, if_neg fun hover => hpaid (hoverruns.mpr hover)]
  · rw [hvalues, hslot, hresult]

/-! ## A call that counts twice -/

/-- An account that can pay, and a contract that holds a slot. -/
def counterState : WorldState :=
  (((∅ : WorldState).insertAccount 1 (.plain 0 1000000000)).insertAccount 5
    { nonce := 1, codeHash := 1, code := [0] }).setStorage ⟨5, 7⟩ 41

/-- A call that counts in a slot, stores the hash of the parent block in another, counts in the
first one again, and then stops as the tail says. -/
def countTwice (tail : Bytes) (gasLimit : U64) : Transaction where
  request :=
    { chainId := 1, sender := 1, recipient := some 5, value := 3, gasLimit
      maxFee := 10, maxPriorityFee := 2
      input :=
        [⟨.increment, 7⟩, ⟨.blockHash, 8⟩, ⟨.increment, 7⟩].flatMap Instruction.bytes ++ tail }
  signature := ⟨1, 1, false⟩
  hash := 0

/-- The block of the call, whose parent has the hash six. -/
def countTwiceContext : BlockContext where
  header := { beneficiary := 9, gasLimit := 30000000, number := 4, baseFee := some 7 }
  beneficiary := 9
  blockHash? := fun number => if number = 3 then some 6 else none
  blobGasPrice := 1

/-- The second count sees the first, and each is logged with the value it leaves. -/
theorem process_call_decoded_countTwice :
    ∃ w', ((processor { verifySignatures := false }).process countTwiceContext
        (countTwice [] 200000) .full).runOn (.ofView counterState.view) =
          (.ok (.successful 87554 [⟨5, [7], Word.bytes 42⟩, ⟨5, [7], Word.bytes 43⟩]), w') ∧
      w'.values.slot ⟨5, 7⟩ = 43 ∧ w'.values.slot ⟨5, 8⟩ = 6 := by
  have hpasses : Passes { verifySignatures := false } countTwiceContext (countTwice [] 200000) .full
      (Accumulator.ofView counterState.view).values := ⟨by decide +kernel, by decide +kernel⟩
  obtain ⟨p, hp, result, w', hrun, -, hpaid, hslot⟩ :=
    process_call_decoded (Accumulator.sound_ofView _) counterState.readable_view hpasses rfl
      (by decide +kernel) (by decide +kernel) (by decide) (by decide)
  have hspells : Program.Spells
      ⟨[⟨.increment, 7⟩, ⟨.blockHash, 8⟩, ⟨.increment, 7⟩], .finished⟩
      (countTwice [] 200000).request.input := ⟨[], rfl, .finished⟩
  obtain rfl := (hp _).mp hspells
  have hresult := hpaid (by rw [Program.overruns_iff] <;> decide +kernel)
  rw [hresult] at hrun hslot
  refine ⟨w', hrun.trans ?_, ?_, ?_⟩
  · rfl
  · rw [hslot]
    decide +kernel
  · rw [hslot]
    decide +kernel

end Simple

end BlockExecution
