/-
  Words as natural numbers.

  Each operation that clips has one equation for the number of its result, and
  each that is checked one condition for giving nothing.
-/
import Mathlib
import BlockExecution.Word

namespace BlockExecution

theorem toNat_clip (w n : Nat) : (clip w n).toNat = min n (2 ^ w - 1) := by
  have hpos : 0 < 2 ^ w := Nat.two_pow_pos w
  have hword : (BitVec.ofNat w n).toNat = n % 2 ^ w := BitVec.toNat_ofNat n w
  unfold clip
  split
  · rename_i h
    have hlt : n < 2 ^ w := by
      rw [← h, hword]
      exact Nat.mod_lt _ hpos
    rw [h]
    omega
  · rename_i h
    have hge : 2 ^ w ≤ n := by
      by_contra hlt
      exact h (by rw [hword, Nat.mod_eq_of_lt (by omega)])
    rw [BitVec.toNat_allOnes]
    omega

theorem toNat_satAdd {w : Nat} (a b : BitVec w) :
    (satAdd a b).toNat = min (a.toNat + b.toNat) (2 ^ w - 1) :=
  toNat_clip w _

theorem toNat_satMul {w : Nat} (a b : BitVec w) :
    (satMul a b).toNat = min (a.toNat * b.toNat) (2 ^ w - 1) :=
  toNat_clip w _

theorem toNat_satSub {w : Nat} (a b : BitVec w) :
    (satSub a b).toNat = a.toNat - b.toNat := by
  unfold satSub
  split
  · rename_i h
    exact BitVec.toNat_sub_of_le h
  · rename_i h
    have hlt : a.toNat < b.toNat := Nat.lt_of_not_le h
    rw [BitVec.toNat_ofNat, Nat.zero_mod]
    omega

theorem toNat_minWord {w : Nat} (a b : BitVec w) :
    (minWord a b).toNat = min a.toNat b.toNat := by
  unfold minWord
  split
  · rename_i h
    have hle : a.toNat ≤ b.toNat := h
    omega
  · rename_i h
    have hlt : b.toNat < a.toNat := Nat.lt_of_not_le h
    omega

/-! ## Spending within a limit -/

/-- What is spent of an amount that fits into what is left adds up and stays within the limit. -/
theorem toNat_add_of_fits {w : Nat} {limit used asked spent : BitVec w} (hused : used ≤ limit)
    (hfits : ¬ limit - used < asked) (hspent : spent ≤ asked) :
    (used + spent).toNat = used.toNat + spent.toNat ∧ used + spent ≤ limit := by
  have hleft : asked.toNat ≤ limit.toNat - used.toNat := by
    rw [← BitVec.toNat_sub_of_le hused]
    exact Nat.le_of_not_lt hfits
  have hbefore : used.toNat ≤ limit.toNat := hused
  have hasked : spent.toNat ≤ asked.toNat := hspent
  have hlimit : limit.toNat < 2 ^ w := limit.isLt
  have htotal : (used + spent).toNat = used.toNat + spent.toNat :=
    BitVec.toNat_add_of_lt (by omega)
  refine ⟨htotal, ?_⟩
  rw [BitVec.le_def, htotal]
  omega

/-! ## Change of width -/

theorem U64.toNat_toWord (a : U64) : a.toWord.toNat = a.toNat := by
  unfold U64.toWord
  rw [BitVec.toNat_setWidth]
  omega

theorem U128.toNat_toWord (a : U128) : a.toWord.toNat = a.toNat := by
  unfold U128.toWord
  rw [BitVec.toNat_setWidth]
  omega

theorem U64.toNat_toU128 (a : U64) : a.toU128.toNat = a.toNat := by
  unfold U64.toU128
  rw [BitVec.toNat_setWidth]
  omega

end BlockExecution
