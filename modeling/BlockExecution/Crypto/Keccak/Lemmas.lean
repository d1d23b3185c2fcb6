/-
  Keccak-256 on natural numbers.

  The lanes of a sponge are kept in one number, sixty-four bits each, lane zero
  lowest. Every step map has its counterpart on such numbers, with the equation
  that it does to the number what the step map does to the lanes. The hash of a
  message of some hundred bytes can be computed this way by reduction alone.
-/
import Mathlib
import BlockExecution.Crypto.Keccak

namespace BlockExecution

namespace Keccak

/-! ## Lanes in a number -/

/-- One more than the largest lane. -/
def laneBound : Nat := 18446744073709551616

theorem laneBound_eq : laneBound = 2 ^ 64 := rfl

/-- Lane `i` of a number. -/
def laneAt (n i : Nat) : Nat := (n >>> (64 * i)) % laneBound

/-- The number of lanes, the first one lowest. -/
def packed (lanes : List Nat) : Nat := lanes.foldr (fun x rest => x + laneBound * rest) 0

/-- The number whose first `n` lanes are given. -/
def tabulate (n : Nat) (f : Nat → Nat) : Nat := packed ((List.range n).map f)

/-- Whether the lanes of a number are those of a vector. -/
def Packs {m : Nat} (n : Nat) (v : Vector UInt64 m) : Prop :=
  ∀ (i : Nat) (h : i < m), laneAt n i = v[i].toNat

theorem laneAt_eq (n i : Nat) : laneAt n i = n / 2 ^ (64 * i) % 2 ^ 64 := by
  rw [laneAt, Nat.shiftRight_eq_div_pow]
  rfl

theorem packed_cons (x : Nat) (lanes : List Nat) :
    packed (x :: lanes) = x + 2 ^ 64 * packed lanes := rfl

theorem laneAt_packed {lanes : List Nat} (h : ∀ x ∈ lanes, x < 2 ^ 64) (i : Nat) :
    laneAt (packed lanes) i = lanes.getD i 0 := by
  induction lanes generalizing i with
  | nil => simp [laneAt_eq, packed]
  | cons x lanes ih =>
    obtain ⟨hx, hlanes⟩ := List.forall_mem_cons.mp h
    rw [laneAt_eq, packed_cons]
    cases i with
    | zero => simpa using Nat.mod_eq_of_lt hx
    | succ i =>
      have hsplit : 64 * (i + 1) = 64 + 64 * i := by omega
      have hrest : (x + 2 ^ 64 * packed lanes) / 2 ^ 64 = packed lanes := by omega
      rw [hsplit, Nat.pow_add, ← Nat.div_div_eq_div_mul, hrest, ← laneAt_eq, ih hlanes]
      rfl

/-- A vector that is given lane by lane can be given so in a number. -/
theorem packs_tabulate {m : Nat} {f : Nat → Nat} {g : Fin m → UInt64}
    (h : ∀ i : Fin m, f i = (g i).toNat) : Packs (tabulate m f) (Vector.ofFn g) := by
  intro i hi
  have hlanes : ∀ x ∈ (List.range m).map f, x < 2 ^ 64 := by
    simp only [List.mem_map, List.mem_range]
    rintro x ⟨j, hj, rfl⟩
    rw [h ⟨j, hj⟩]
    exact (g ⟨j, hj⟩).toNat_lt
  rw [tabulate, laneAt_packed hlanes, Vector.getElem_ofFn, ← h ⟨i, hi⟩,
    List.getD_eq_getElem _ _ (by simpa using hi), List.getElem_map, List.getElem_range]

theorem laneAt_xor (n k i : Nat) : laneAt (n ^^^ k) i = laneAt n i ^^^ laneAt k i := by
  rw [laneAt, laneAt, laneAt, Nat.shiftRight_xor_distrib, laneBound_eq]
  exact Nat.xor_mod_two_pow

/-! ## Step maps -/

/-- A lane turned left by `n` places. -/
def rotatedNat (x n : Nat) : Nat := ((x <<< n) % laneBound) ||| (x >>> (64 - n))

theorem toNat_rotateLeft (x : UInt64) {n : UInt64} (h : n.toNat < 64) :
    (rotateLeft x n).toNat = rotatedNat x.toNat n.toNat := by
  have hx := x.toNat_lt
  rw [rotatedNat, laneBound_eq, rotateLeft]
  -- A shift by all sixty-four places would be one by none, so a turn by none stands apart.
  split
  · rename_i hzero
    rw [hzero, UInt64.toNat_zero, Nat.shiftLeft_zero, Nat.mod_eq_of_lt hx,
      Nat.shiftRight_eq_div_pow, Nat.div_eq_of_lt hx, Nat.or_zero]
  · rename_i hpos
    have hn : 0 < n.toNat := Nat.pos_of_ne_zero fun hzero => hpos (UInt64.toNat_inj.mp hzero)
    have hback : (64 - n).toNat = 64 - n.toNat :=
      UInt64.toNat_sub_of_le _ _ (UInt64.le_iff_toNat_le.mpr h.le)
    have hwithin : (64 - n.toNat) % 64 = 64 - n.toNat := Nat.mod_eq_of_lt (by omega)
    rw [UInt64.toNat_or, UInt64.toNat_shiftLeft, UInt64.toNat_shiftRight, hback,
      Nat.mod_eq_of_lt h, hwithin]

/-- How far each lane turns. -/
def packedRotations : Nat := packed (rotations.toList.map UInt64.toNat)

/-- The parity of each column. -/
def packedColumnParity (n : Nat) : Nat :=
  tabulate 5 fun x =>
    laneAt n x ^^^ laneAt n (x + 5) ^^^ laneAt n (x + 10) ^^^ laneAt n (x + 15) ^^^
      laneAt n (x + 20)

/-- What the parities of columns change in each column. -/
def packedChange (parity : Nat) : Nat :=
  tabulate 5 fun x => laneAt parity ((x + 4) % 5) ^^^ rotatedNat (laneAt parity ((x + 1) % 5)) 1

/-- Each lane takes up the change in its column. -/
def packedTheta (n : Nat) : Nat :=
  let change := packedChange (packedColumnParity n)
  tabulate 25 fun i => laneAt n i ^^^ laneAt change (i % 5)

/-- Lanes turn and move. -/
def packedRhoPi (n : Nat) : Nat :=
  tabulate 25 fun i =>
    let x := i % 5
    let j := (x + 3 * (i / 5)) % 5 + 5 * x
    rotatedNat (laneAt n j) (laneAt packedRotations j)

/-- Each lane takes up one lane where another is zero. -/
def packedChi (n : Nat) : Nat :=
  tabulate 25 fun i =>
    let x := i % 5
    let row := i - x
    laneAt n i ^^^
      ((laneBound - 1 - laneAt n (row + (x + 1) % 5)) &&& laneAt n (row + (x + 2) % 5))

/-- One round with its constant. -/
def packedRound (n : Nat) (constant : UInt64) : Nat :=
  packedChi (packedRhoPi (packedTheta n)) ^^^ constant.toNat

/-- The permutation of the sponge. -/
def packedPermute (n : Nat) : Nat := roundConstants.foldl packedRound n

variable {n : Nat} {a : Lanes}

theorem packs_columnParity (h : Packs n a) : Packs (packedColumnParity n) (columnParity a) := by
  apply packs_tabulate
  intro x
  simp only [UInt64.toNat_xor, h x (by omega), h (x + 5) (by omega), h (x + 10) (by omega),
    h (x + 15) (by omega), h (x + 20) (by omega)]

theorem packs_theta (h : Packs n a) : Packs (packedTheta n) (theta a) := by
  have hparity := packs_columnParity h
  apply packs_tabulate
  intro i
  have hchange := packs_tabulate (m := 5)
    (f := fun x => laneAt (packedColumnParity n) ((x + 4) % 5) ^^^
      rotatedNat (laneAt (packedColumnParity n) ((x + 1) % 5)) 1)
    (g := fun x => (columnParity a)[(x.val + 4) % 5] ^^^
      rotateLeft (columnParity a)[(x.val + 1) % 5] 1) fun x => by
        rw [UInt64.toNat_xor, toNat_rotateLeft _ (by decide), hparity _ (Nat.mod_lt _ (by decide)),
          hparity _ (Nat.mod_lt _ (by decide))]
        rfl
  -- Every lane of a column takes up one change.
  have hi := hchange (i % 5) (Nat.mod_lt _ (by decide))
  rw [UInt64.toNat_xor, h i i.isLt]
  exact congrArg _ hi

theorem packs_rotations : Packs packedRotations rotations := by
  have hlanes : ∀ x ∈ rotations.toList.map UInt64.toNat, x < 2 ^ 64 := by
    simp only [List.mem_map]
    rintro x ⟨y, -, rfl⟩
    exact y.toNat_lt
  intro i hi
  rw [packedRotations, laneAt_packed hlanes, List.getD_eq_getElem _ _ (by simpa using hi),
    List.getElem_map, Vector.getElem_toList]

theorem packs_rhoPi (h : Packs n a) : Packs (packedRhoPi n) (rhoPi a) := by
  have hturn : ∀ j (hj : j < 25), rotations[j].toNat < 64 := by decide
  apply packs_tabulate
  intro i
  have hj : (i.val % 5 + 3 * (i.val / 5)) % 5 + 5 * (i.val % 5) < 25 := by omega
  rw [toNat_rotateLeft _ (hturn _ hj), ← h _ hj, ← packs_rotations _ hj]

theorem packs_chi (h : Packs n a) : Packs (packedChi n) (chi a) := by
  apply packs_tabulate
  intro i
  have hone : i.val - i.val % 5 + (i.val % 5 + 1) % 5 < 25 := by omega
  have htwo : i.val - i.val % 5 + (i.val % 5 + 2) % 5 < 25 := by omega
  rw [UInt64.toNat_xor, UInt64.toNat_and, UInt64.toNat_not, ← h i i.isLt, ← h _ hone, ← h _ htwo]
  rfl

/-- The constant of a round is a number of one lane. -/
theorem laneAt_toNat (constant : UInt64) (i : Nat) :
    laneAt constant.toNat i = if i = 0 then constant.toNat else 0 := by
  have hconstant := constant.toNat_lt
  rw [laneAt_eq]
  split
  · rename_i hzero
    rw [hzero, Nat.mul_zero, Nat.pow_zero, Nat.div_one, Nat.mod_eq_of_lt hconstant]
  · have hlt : constant.toNat < 2 ^ (64 * i) :=
      hconstant.trans_le (Nat.pow_le_pow_right (by decide) (by omega))
    rw [Nat.div_eq_of_lt hlt, Nat.zero_mod]

theorem packs_round (h : Packs n a) (constant : UInt64) :
    Packs (packedRound n constant) (round a constant) := by
  have hchi := packs_chi (packs_rhoPi (packs_theta h))
  unfold packedRound round
  generalize packedChi (packedRhoPi (packedTheta n)) = k at hchi ⊢
  generalize chi (rhoPi (theta a)) = b at hchi ⊢
  -- The constant reaches lane zero alone.
  intro i hi
  rw [laneAt_xor, hchi i hi, laneAt_toNat, Vector.getElem_set]
  by_cases hzero : i = 0
  · subst hzero
    rw [if_pos rfl, if_pos rfl, UInt64.toNat_xor]
  · rw [if_neg hzero, if_neg (Ne.symm hzero), Nat.xor_zero]

theorem packs_permute (h : Packs n a) : Packs (packedPermute n) (permute a) := by
  unfold packedPermute permute
  generalize roundConstants = constants
  induction constants generalizing n a with
  | nil => exact h
  | cons constant constants ih =>
    rw [List.foldl_cons, List.foldl_cons]
    exact ih (packs_round h constant)

/-! ## Sponge -/

/-- Adds one block to the sponge and permutes. -/
def packedAbsorbBlock (n : Nat) (block : Bytes) : Nat :=
  packedPermute (n ^^^ packed ((lanesOf (rate / 8) block).map UInt64.toNat))

/-- Adds blocks of a padded message to the sponge, in order. -/
def packedAbsorb : Nat → Nat → Bytes → Nat
  | 0, n, _ => n
  | blocks + 1, n, bs => packedAbsorb blocks (packedAbsorbBlock n (bs.take rate)) (bs.drop rate)

/-- The hash of `message`. -/
def packedHash (message : Bytes) : Hash :=
  let bytes := pad message
  let n := packedAbsorb (bytes.length / rate) 0 bytes
  Word.ofBytes ([laneAt n 0, laneAt n 1, laneAt n 2, laneAt n 3].flatMap fun lane =>
    laneBytes (UInt64.ofNat lane))

theorem packs_absorbBlock (h : Packs n a) (block : Bytes) :
    Packs (packedAbsorbBlock n block) (absorbBlock a block) := by
  apply packs_permute
  have hlanes : ∀ x ∈ (lanesOf (rate / 8) block).map UInt64.toNat, x < 2 ^ 64 := by
    simp only [List.mem_map]
    rintro x ⟨y, -, rfl⟩
    exact y.toNat_lt
  intro i hi
  rw [laneAt_xor, laneAt_packed hlanes, h i hi, Vector.getElem_ofFn, UInt64.toNat_xor]
  congr 1
  simp only [List.getD_eq_getElem?_getD, List.getElem?_map, Array.getD_eq_getD_getElem?,
    List.getElem?_toArray]
  cases (lanesOf (rate / 8) block)[i]? <;> rfl

theorem packs_absorb (blocks : Nat) (h : Packs n a) (bs : Bytes) :
    Packs (packedAbsorb blocks n bs) (absorb blocks a bs) := by
  induction blocks generalizing n a bs with
  | zero => exact h
  | succ blocks ih => exact ih (packs_absorbBlock h _) _

end Keccak

/-- The hash can be computed on numbers. -/
theorem keccak256_eq (message : Bytes) : keccak256 message = Keccak.packedHash message := by
  have hstart : Keccak.Packs 0 (Vector.replicate 25 0) := by
    intro i hi
    rw [Keccak.laneAt_eq, Nat.zero_div, Vector.getElem_replicate]
    rfl
  have hlanes := Keccak.packs_absorb ((Keccak.pad message).length / Keccak.rate) hstart
    (Keccak.pad message)
  -- The digest shows the first four lanes.
  have hlane : ∀ i (hi : i < 25), UInt64.ofNat (Keccak.laneAt _ i) = _ := fun i hi =>
    (congrArg UInt64.ofNat (hlanes i hi)).trans UInt64.ofNat_toNat
  simp only [keccak256, Keccak.digest, Keccak.packedHash, List.flatMap_cons, List.flatMap_nil,
    hlane 0 (by decide), hlane 1 (by decide), hlane 2 (by decide), hlane 3 (by decide)]

end BlockExecution
