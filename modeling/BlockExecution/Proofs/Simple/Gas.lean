/-
  Gas of the slot processor as numbers.

  Gas is counted in words that wrap around. A transaction of any size that can be
  held in memory costs far less than the largest word, so its gas before it runs
  and the gas of its instructions are what they are as numbers.
-/
import BlockExecution.Simple.Instruction
import BlockExecution.Word.Lemmas

namespace BlockExecution.Simple

variable {r : TransactionRequest}

/-! ## Instructions -/

/-- Gas of an instruction. -/
def Opcode.cost : Opcode → Nat
  | .increment => 22475
  | .read => 2100
  | .blockHash => 20020

theorem Opcode.toNat_gas (opcode : Opcode) : opcode.gas.toNat = opcode.cost := by
  cases opcode <;> rfl

/-- Gas of instructions together. -/
def costOf (instructions : List Instruction) : Nat :=
  (instructions.map fun i => i.opcode.cost).sum

theorem costOf_cons (i : Instruction) (rest : List Instruction) :
    costOf (i :: rest) = i.opcode.cost + costOf rest := by
  rw [costOf, List.map_cons, List.sum_cons]
  rfl

theorem costOf_le (instructions : List Instruction) :
    costOf instructions ≤ 22475 * instructions.length := by
  induction instructions with
  | nil => exact Nat.le_refl 0
  | cons i rest ih =>
    have hone : i.opcode.cost ≤ 22475 := by cases i.opcode <;> decide
    rw [costOf_cons, List.length_cons]
    omega

/-! ## Before anything runs -/

/-- Gas of announced accounts and slots, as a number. -/
def accessListCost (items : List AccessListItem) : Nat :=
  2400 * items.length + 1900 * (items.map fun item => item.storageKeys.length).sum

/-- Gas charged before anything runs, as a number. -/
def intrinsicCost (r : TransactionRequest) : Nat :=
  (if r.recipient.isNone then 53000 else 21000) + 16 * r.input.length
    + accessListCost r.accessList

theorem toNat_accessListGas {items : List AccessListItem} (h : accessListCost items < 2 ^ 64) :
    (accessListGas items).toNat = accessListCost items := by
  induction items with
  | nil => rfl
  | cons item rest ih =>
    have hcost : accessListCost (item :: rest) =
        2400 + item.storageKeys.length * 1900 + accessListCost rest := by
      simp only [accessListCost, List.length_cons, List.map_cons, List.sum_cons]
      omega
    rw [hcost] at h ⊢
    have haddress : announcedAddressGas.toNat = 2400 := rfl
    have hkey : announcedKeyGas.toNat = 1900 := rfl
    have hrest := ih (by omega)
    have hgas : accessListGas (item :: rest) = announcedAddressGas +
        BitVec.ofNat 64 item.storageKeys.length * announcedKeyGas + accessListGas rest := rfl
    rw [hgas, BitVec.toNat_add, BitVec.toNat_add, BitVec.toNat_mul, BitVec.toNat_ofNat, haddress,
      hkey, hrest]
    omega

/-- Gas charged before anything runs does not wrap around. -/
theorem toNat_intrinsicGas (h : intrinsicCost r < 2 ^ 64) :
    (intrinsicGas r).toNat = intrinsicCost r := by
  unfold intrinsicCost at h ⊢
  have hlist : (accessListGas r.accessList).toNat = accessListCost r.accessList :=
    toNat_accessListGas (by omega)
  have hcreation : (transactionGas + creationGas).toNat = 53000 := rfl
  have hcall : transactionGas.toNat = 21000 := rfl
  have hbyte : inputByteGas.toNat = 16 := rfl
  rw [intrinsicGas, BitVec.toNat_add, BitVec.toNat_add, BitVec.toNat_mul, BitVec.toNat_ofNat,
    hlist, hbyte]
  split
  · rename_i hnone
    rw [if_pos hnone] at h
    omega
  · rename_i hsome
    rw [if_neg hsome] at h
    omega

/-- Counts below a bound that no transaction reaches keep the gas within a word. -/
theorem intrinsicCost_lt (hinput : r.input.length < 2 ^ 40)
    (hlist : r.accessList.length < 2 ^ 40)
    (hkeys : (r.accessList.map fun item => item.storageKeys.length).sum < 2 ^ 40) :
    intrinsicCost r < 2 ^ 53 := by
  unfold intrinsicCost accessListCost
  split <;> omega

end BlockExecution.Simple
