/-
  Instruction streams: local, and without effect on anything but slots of their contract.
-/
import BlockExecution.Proofs.State.Ensures
import BlockExecution.Simple.Run

namespace BlockExecution.Simple

variable {ctx : BlockContext} {contract : Address} {gasLimit gasUsed : U64} {logs : List Log}
  {stream : Bytes} {u : Snapshot}

/-- A stream by its front. -/
theorem runStream_eq :
    runStream ctx contract gasLimit gasUsed logs stream =
      match Front.ofStream stream with
      | .finished => pure ⟨gasUsed, .ok logs⟩
      | .revert data => pure ⟨gasUsed, .error (.revert, some data)⟩
      | .malformed => pure (BodyOutcome.exhausted gasLimit .invalidInstruction)
      | .instruction i rest =>
        if gasLimit < gasUsed + i.opcode.gas then
          pure (BodyOutcome.exhausted gasLimit .outOfGas)
        else i.perform ctx contract >>= fun written =>
          runStream ctx contract gasLimit (gasUsed + i.opcode.gas) (logs ++ written) rest := by
  conv_lhs => unfold runStream
  split <;> rename_i hfront <;> rw [hfront]

/-! ## Locality -/

theorem local_perform (ctx : BlockContext) (contract : Address) (i : Instruction) :
    Local (i.perform ctx contract).runOn := by
  unfold Instruction.perform
  cases i.opcode with
  | increment =>
    apply Local.executionBind (Local.slot _)
    intro value
    exact Local.executionBind (Local.setSlot _ _) fun _ => Local.executionPure _
  | read => exact Local.executionBind (Local.slot _) fun _ => Local.executionPure _
  | blockHash => exact Local.executionBind (Local.setSlot _ _) fun _ => Local.executionPure _

theorem local_runStream (ctx : BlockContext) (contract : Address) (gasLimit gasUsed : U64)
    (logs : List Log) (stream : Bytes) :
    Local (runStream ctx contract gasLimit gasUsed logs stream).runOn := by
  -- One case for each front of the stream, as in the recursion itself.
  induction gasUsed, logs, stream using runStream.induct gasLimit with
  | case1 gasUsed logs stream hfront =>
    simp only [runStream_eq, hfront]
    exact Local.executionPure _
  | case2 gasUsed logs stream data hfront =>
    simp only [runStream_eq, hfront]
    exact Local.executionPure _
  | case3 gasUsed logs stream hfront =>
    simp only [runStream_eq, hfront]
    exact Local.executionPure _
  | case4 gasUsed logs stream i rest hfront after hgas =>
    have hout : gasLimit < gasUsed + i.opcode.gas := hgas
    rw [runStream_eq]
    simp only [hfront, if_pos hout]
    exact Local.executionPure _
  | case5 gasUsed logs stream i rest hfront after hgas ih =>
    have hpaid : ¬ gasLimit < gasUsed + i.opcode.gas := hgas
    rw [runStream_eq]
    simp only [hfront, if_neg hpaid]
    exact Local.executionBind (local_perform ctx contract i) ih

/-! ## Effect -/

/-- Whether only slots of a contract differ. -/
structure SlotsOnly (contract : Address) (u v : Snapshot) : Prop where
  account : v.account = u.account
  slot : ∀ k, k.address ≠ contract → v.slot k = u.slot k

theorem SlotsOnly.refl (contract : Address) (u : Snapshot) : SlotsOnly contract u u :=
  ⟨rfl, fun _ _ => rfl⟩

theorem SlotsOnly.trans {v w : Snapshot} (h₁ : SlotsOnly contract u v)
    (h₂ : SlotsOnly contract v w) : SlotsOnly contract u w :=
  ⟨h₂.account.trans h₁.account, fun k hk => (h₂.slot k hk).trans (h₁.slot k hk)⟩

theorem slotsOnly_setSlot (u : Snapshot) (contract : Address) (slot value : Word) :
    SlotsOnly contract u (u.setSlot ⟨contract, slot⟩ value) where
  account := rfl
  slot k hk := by
    have hne : k ≠ ⟨contract, slot⟩ := fun heq => hk (by rw [heq])
    exact Snapshot.slot_setSlot_of_ne hne u value

/-- An instruction leaves everything alone but slots of its contract. -/
theorem ensures_perform (ctx : BlockContext) (contract : Address) (i : Instruction) :
    (i.perform ctx contract).Ensures u fun _ v => SlotsOnly contract u v := by
  have hwrite : ∀ value logs, (do Execution.setSlot ⟨contract, i.slot⟩ value; return logs).Ensures u
      fun (_ : List Log) v => SlotsOnly contract u v := by
    intro value logs
    have hset : (Execution.setSlot ⟨contract, i.slot⟩ value).Ensures u
        fun _ v => SlotsOnly contract u v := .setSlot (slotsOnly_setSlot u contract i.slot value)
    exact hset.bind fun _ _ hv => .pure hv
  have hread : ∀ key, (Execution.slot key).Ensures u fun _ v => v = u := fun key => .slot rfl
  unfold Instruction.perform
  cases i.opcode with
  | increment =>
    apply (hread _).bind
    rintro value v rfl
    exact hwrite _ _
  | read => exact (hread _).bind fun _ _ hv => .pure (hv ▸ .refl contract u)
  | blockHash => exact hwrite _ _

/-- A stream leaves everything alone but slots of its contract, and uses no more than the gas
limit. -/
theorem ensures_runStream (ctx : BlockContext) (contract : Address) (hlimit : gasUsed ≤ gasLimit) :
    (runStream ctx contract gasLimit gasUsed logs stream).Ensures u fun outcome v =>
      SlotsOnly contract u v ∧ outcome.gasUsed ≤ gasLimit := by
  -- The same induction; the values that an instruction leaves are those that the rest starts from.
  induction gasUsed, logs, stream using runStream.induct gasLimit generalizing u with
  | case1 gasUsed logs stream hfront =>
    simp only [runStream_eq, hfront]
    exact .pure ⟨.refl contract u, hlimit⟩
  | case2 gasUsed logs stream data hfront =>
    simp only [runStream_eq, hfront]
    exact .pure ⟨.refl contract u, hlimit⟩
  | case3 gasUsed logs stream hfront =>
    simp only [runStream_eq, hfront]
    exact .pure ⟨.refl contract u, BitVec.le_refl gasLimit⟩
  | case4 gasUsed logs stream i rest hfront =>
    rename_i hgas
    have hout : gasLimit < gasUsed + i.opcode.gas := hgas
    rw [runStream_eq]
    simp only [hfront, if_pos hout]
    exact .pure ⟨.refl contract u, BitVec.le_refl gasLimit⟩
  | case5 gasUsed logs stream i rest hfront =>
    rename_i hgas ih
    have hpaid : ¬ gasLimit < gasUsed + i.opcode.gas := hgas
    rw [runStream_eq]
    simp only [hfront, if_neg hpaid]
    apply (ensures_perform ctx contract i).bind
    intro written v hv
    apply (ih written (BitVec.not_lt.mp hpaid)).mono
    exact fun outcome w h => ⟨hv.trans h.1, h.2⟩

end BlockExecution.Simple
