import Mathlib
import Sha3Kernel.HashLib.Sponge
/-!
# Keccak-f[1600] and SHA3-512, bit by bit

FIPS 202, sections 3 to 6, for `w = 64` and `l = 6`: the five step mappings on
state arrays, the round constants from the LFSR, and the permutation as 24
rounds. A state array and a 1600-bit string hold the same bits
(`A[x, y, z] = S[w(5y + x) + z]`).
-/

namespace HashLib.Fips202

-- the rows and columns
instance neZero_side : NeZero 5 := ⟨by decide⟩

/-- `A x y z` is bit `z` of the lane in column `x` and row `y`. -/
abbrev StateArray := Fin 5 → Fin 5 → Fin 64 → Bool

/-! ## The step mappings -/

/-- The parity `C[x, z]` of a column. -/
def parity (A : StateArray) (x : Fin 5) (z : Fin 64) : Bool :=
  A x 0 z ^^ A x 1 z ^^ A x 2 z ^^ A x 3 z ^^ A x 4 z

/-- `D[x, z] = C[x-1, z] ⊕ C[x+1, z-1]` -/
def thetaEffect (C : Fin 5 → Fin 64 → Bool) (x : Fin 5) (z : Fin 64) : Bool :=
  C (x - 1) z ^^ C (x + 1) (z - 1)

def theta (A : StateArray) : StateArray := fun x y z => A x y z ^^ thetaEffect (parity A) x z

/-- The walk of step 2 and 3 of ρ: from lane `(1, 0)` on, the lane at step `t`
gets the offset `(t+1)(t+2)/2`, and `(x, y)` moves to `(y, 2x + 3y)`. -/
def rhoWalk : Nat → (Fin 5 → Fin 5 → Nat) × Fin 5 × Fin 5
  | 0 => (fun _ _ => 0, 1, 0)
  | t + 1 =>
    let (offset, x, y) := rhoWalk t
    (Function.update offset x (Function.update (offset x) y ((t + 1) * (t + 2) / 2)), y, 2 * x + 3 * y)

/-- The offsets that 24 steps of the walk assign. -/
def rhoOffset : Fin 5 → Fin 5 → Nat := (rhoWalk 24).1

def rho (A : StateArray) : StateArray := fun x y z => A x y (z - Fin.ofNat 64 (rhoOffset x y))

def pi (A : StateArray) : StateArray := fun x y z => A (x + 3 * y) x z

def chi (A : StateArray) : StateArray := fun x y z => A x y z ^^ (!A (x + 1) y z && A (x + 2) y z)

/-! ## Round constants -/

/-- One step of the 8-bit LFSR (Algorithm 5, step 3). -/
def lfsrStep (R : List Bool) : List Bool :=
  let R := false :: R
  let R := R.set 0 (R.getD 0 false ^^ R.getD 8 false)
  let R := R.set 4 (R.getD 4 false ^^ R.getD 8 false)
  let R := R.set 5 (R.getD 5 false ^^ R.getD 8 false)
  let R := R.set 6 (R.getD 6 false ^^ R.getD 8 false)
  R.take 8

def rc (t : Nat) : Bool :=
  if t % 255 = 0 then true
  else (lfsrStep^[t % 255] [true, false, false, false, false, false, false, false]).getD 0 false

/-- The round constant of round `ir`: bit `2^j - 1` is `rc (j + 7 ir)` for `j ≤ l`. -/
def roundConstant (ir : Nat) : Fin 64 → Bool :=
  (List.range 7).foldl (fun RC j => Function.update RC (Fin.ofNat 64 (2 ^ j - 1)) (rc (j + 7 * ir))) (fun _ => false)

def iota (A : StateArray) (ir : Nat) : StateArray :=
  fun x y z => if x = 0 ∧ y = 0 then A x y z ^^ roundConstant ir z else A x y z

/-! ## The permutation and the hash -/

def rnd (A : StateArray) (ir : Nat) : StateArray := iota (chi (pi (rho (theta A)))) ir

/-- Keccak-f[1600] on state arrays. -/
def keccakF (A : StateArray) : StateArray := (List.range 24).foldl rnd A

/-- The state array of a 1600-bit string. -/
def ofString (S : List Bool) : StateArray :=
  fun x y z => S.getD (64 * (5 * y.val + x.val) + z.val) false

/-- The 1600-bit string of a state array. -/
def toString (A : StateArray) : List Bool :=
  (List.finRange 5).flatMap fun y => (List.finRange 5).flatMap fun x => (List.finRange 64).map (A x y)

/-- `KECCAK[c](N, d)` for the permutation `f` on 1600-bit strings. -/
def keccak (f : List Bool → List Bool) (c : Nat) (N : List Bool) (d : Nat) : List Bool :=
  Sponge.sponge f Sponge.pad10star1 1600 (1600 - c) N d

/-- SHA3-512 of a bit string. -/
def sha3_512 (M : List Bool) : List Bool :=
  keccak (fun S => toString (keccakF (ofString S))) 1024 (M ++ [false, true]) 512

end HashLib.Fips202
