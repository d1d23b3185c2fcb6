/-
  Byte strings as numbers.

  Reading what was written gives the number modulo 256 to the count of bytes, so
  numbers below that bound have one spelling.
-/
import Mathlib
import BlockExecution.Bytes

namespace BlockExecution

private theorem foldl_be_start (bs : Bytes) (start : Nat) :
    bs.foldl (fun acc b => acc * 256 + b.toNat) start
      = start * 256 ^ bs.length + beNat bs := by
  unfold beNat
  induction bs generalizing start with
  | nil => simp
  | cons b bs ih =>
    rw [List.foldl_cons, List.foldl_cons, ih, ih (0 * 256 + b.toNat)]
    simp only [List.length_cons, Nat.pow_succ, Nat.add_mul, Nat.mul_assoc, Nat.zero_mul,
      Nat.zero_add, Nat.add_assoc]
    rw [Nat.mul_comm 256]

theorem beNat_nil : beNat [] = 0 := rfl

theorem beNat_cons (b : UInt8) (bs : Bytes) :
    beNat (b :: bs) = b.toNat * 256 ^ bs.length + beNat bs := by
  rw [beNat, List.foldl_cons, foldl_be_start]
  simp

theorem beNat_lt (bs : Bytes) : beNat bs < 256 ^ bs.length := by
  induction bs with
  | nil => simp [beNat_nil]
  | cons b bs ih =>
    rw [beNat_cons, List.length_cons, Nat.pow_succ]
    have hb : b.toNat < 256 := b.toNat_lt
    have hmul : (b.toNat + 1) * 256 ^ bs.length ≤ 256 * 256 ^ bs.length :=
      Nat.mul_le_mul_right _ hb
    rw [Nat.add_mul, Nat.one_mul] at hmul
    rw [Nat.mul_comm (256 ^ bs.length)]
    omega

/-- Reading what was written keeps the low bytes of the number. -/
theorem beNat_beBytes (n v : Nat) : beNat (beBytes n v) = v % 256 ^ n := by
  induction n with
  | zero => simp [beBytes, beNat_nil, Nat.mod_one]
  | succ n ih =>
    rw [beBytes, beNat_cons, ih, length_beBytes]
    have hpow : (2 : Nat) ^ (8 * n) = 256 ^ n := by
      rw [Nat.pow_mul]
    have hsplit : v % 256 ^ (n + 1) = v % 256 ^ n + 256 ^ n * (v / 256 ^ n % 256) :=
      Nat.mod_pow_succ
    rw [Nat.shiftRight_eq_div_pow, hpow, UInt8.toNat_ofNat', hsplit, Nat.add_comm, Nat.mul_comm]

/-- Numbers below the bound have one spelling on `n` bytes. -/
theorem beBytes_inj {n a b : Nat} (ha : a < 256 ^ n) (hb : b < 256 ^ n)
    (h : beBytes n a = beBytes n b) : a = b := by
  have := congrArg beNat h
  rwa [beNat_beBytes, beNat_beBytes, Nat.mod_eq_of_lt ha, Nat.mod_eq_of_lt hb] at this

/-- Byte strings of one length that spell one number are equal. -/
theorem beNat_inj {xs ys : Bytes} (hlength : xs.length = ys.length) (h : beNat xs = beNat ys) :
    xs = ys := by
  induction xs generalizing ys with
  | nil => exact (List.eq_nil_of_length_eq_zero hlength.symm).symm
  | cons x xs ih =>
    cases ys with
    | nil => cases hlength
    | cons y ys =>
      have htail : xs.length = ys.length := Nat.succ.inj hlength
      have hpos : 0 < 256 ^ ys.length := Nat.pow_pos (by decide)
      have hx := beNat_lt xs
      have hy := beNat_lt ys
      rw [beNat_cons, beNat_cons, htail] at h
      rw [htail] at hx
      -- The first byte is the quotient by the weight of the others, and these are the remainder.
      have hhead : x.toNat = y.toNat := by
        have hdiv := congrArg (· / 256 ^ ys.length) h
        simp only [Nat.mul_comm _ (256 ^ ys.length), Nat.mul_add_div hpos, Nat.div_eq_of_lt hx,
          Nat.div_eq_of_lt hy, Nat.add_zero] at hdiv
        exact hdiv
      rw [hhead, Nat.add_left_cancel_iff] at h
      rw [UInt8.toNat_inj.mp hhead, ih htail h]

theorem Word.length_bytes (x : Word) : x.bytes.length = 32 := length_beBytes 32 x.toNat

theorem Word.ofBytes_bytes (x : Word) : Word.ofBytes x.bytes = x := by
  have hlt : x.toNat < 256 ^ 32 := x.isLt
  rw [Word.ofBytes, Word.bytes, beNat_beBytes, Nat.mod_eq_of_lt hlt, BitVec.ofNat_toNat,
    BitVec.setWidth_eq]

/-- Writing what was read gives the bytes back. -/
theorem Word.bytes_ofBytes {bs : Bytes} (h : bs.length = 32) : (Word.ofBytes bs).bytes = bs := by
  have hlt : beNat bs < 256 ^ 32 := h ▸ beNat_lt bs
  have hword : (Word.ofBytes bs).toNat = beNat bs := by
    rw [Word.ofBytes, BitVec.toNat_ofNat]
    exact Nat.mod_eq_of_lt hlt
  apply beNat_inj
  · rw [Word.length_bytes, h]
  · rw [Word.bytes, beNat_beBytes, hword, Nat.mod_eq_of_lt hlt]

end BlockExecution
