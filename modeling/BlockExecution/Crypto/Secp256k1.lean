/-
  The curve y² = x³ + 7 over the integers modulo a 256-bit prime.

  Coordinates are natural numbers below the field size. Points are added in
  projective form, where the point (X, Y, Z) stands for x = X / Z² and
  y = Y / Z³ and Z = 0 for the point at infinity, so that one inversion at the
  end serves a whole multiplication.
-/

namespace BlockExecution.Secp256k1

/-- The size of the coordinate field. -/
def fieldSize : Nat := 0xfffffffffffffffffffffffffffffffffffffffffffffffffffffffefffffc2f

/-- The number of points, which is also the modulus of the scalars. -/
def order : Nat := 0xfffffffffffffffffffffffffffffffebaaedce6af48a03bbfd25e8cd0364141

/-! ## Residues -/

/-- The power `b ^ e` modulo `m`, by squaring along the `bits` low bits of `e`. -/
def powModBits (m : Nat) : Nat → Nat → Nat → Nat
  | 0, _, _ => 1 % m
  | bits + 1, b, e =>
    let rest := powModBits m bits (b * b % m) (e / 2)
    if e % 2 = 1 then b * rest % m else rest

/-- The power `b ^ e` modulo `m`. -/
def powMod (m b e : Nat) : Nat := powModBits m (Nat.log2 e + 1) (b % m) e

/-- The inverse modulo the prime `m` of a number that it does not divide. -/
def invMod (m a : Nat) : Nat := powMod m a (m - 2)

/-- The difference of two residues modulo `m`. -/
def subMod (m a b : Nat) : Nat := (a + (m - b % m)) % m

/-! ## Points -/

/-- A point of the curve with its coordinates. -/
structure Point where
  x : Nat
  y : Nat
  deriving DecidableEq, Repr

/-- A point of the curve, or the one at infinity, in projective form. -/
structure Projective where
  x : Nat
  y : Nat
  z : Nat

namespace Projective

/-- The point at infinity. -/
def infinity : Projective := ⟨1, 1, 0⟩

/-- A point with its coordinates in projective form. -/
def ofPoint (p : Point) : Projective := ⟨p.x, p.y, 1⟩

/-- The coordinates of a point, none for the one at infinity. -/
def toPoint? (p : Projective) : Option Point :=
  if p.z = 0 then none
  else
    let inv := invMod fieldSize p.z
    let inv2 := inv * inv % fieldSize
    some ⟨p.x * inv2 % fieldSize, p.y * (inv2 * inv % fieldSize) % fieldSize⟩

/-- The sum of a point with itself. -/
def double (p : Projective) : Projective :=
  if p.z = 0 || p.y = 0 then infinity
  else
    let m := fieldSize
    let a := p.x * p.x % m
    let b := p.y * p.y % m
    let c := b * b % m
    let d := 4 * (p.x * b % m) % m
    let e := 3 * a % m
    let x := subMod m (e * e) (2 * d)
    let y := subMod m (e * subMod m d x) (8 * c)
    ⟨x, y, 2 * (p.y * p.z % m) % m⟩

/-- The sum of two points. -/
def add (p q : Projective) : Projective :=
  if p.z = 0 then q
  else if q.z = 0 then p
  else
    let m := fieldSize
    let pz2 := p.z * p.z % m
    let qz2 := q.z * q.z % m
    let u1 := p.x * qz2 % m
    let u2 := q.x * pz2 % m
    let s1 := p.y * (qz2 * q.z % m) % m
    let s2 := q.y * (pz2 * p.z % m) % m
    if u1 = u2 then
      if s1 = s2 then p.double else infinity
    else
      let h := subMod m u2 u1
      let r := subMod m s2 s1
      let h2 := h * h % m
      let h3 := h2 * h % m
      let v := u1 * h2 % m
      let x := subMod m (r * r) (h3 + 2 * v)
      let y := subMod m (r * subMod m v x) (s1 * h3)
      ⟨x, y, h * (p.z * q.z % m) % m⟩

/-- Doubles and adds along the `bits` low bits of `k`, most significant first. -/
def mulBits (p : Projective) (k : Nat) : Nat → Projective
  | 0 => infinity
  | bits + 1 =>
    let twice := (mulBits p (k / 2) bits).double
    if k % 2 = 1 then twice.add p else twice

/-- The `k`-fold sum of a point, `k` below `2 ^ 256`. -/
def mul (k : Nat) (p : Projective) : Projective := mulBits p k 256

end Projective

/-- The base point. -/
def generator : Point where
  x := 0x79be667ef9dcbbac55a06295ce870b07029bfcdb2dce28d959f2815b16f81798
  y := 0x483ada7726a3c4655da4fbfc0e1108a8fd17b448a68554199c47d08ffb10d4b8

/-- The point with abscissa `x` and an odd or even ordinate, if there is one. -/
def liftX (x : Nat) (odd : Bool) : Option Point :=
  let square := (x * x % fieldSize * x + 7) % fieldSize
  let root := powMod fieldSize square ((fieldSize + 1) / 4)
  if x < fieldSize ∧ root * root % fieldSize = square then
    some ⟨x, if (root % 2 == 1) == odd then root else fieldSize - root⟩
  else none

end BlockExecution.Secp256k1
