import Mathlib
import Sha3Kernel.HashLib.Bits
import Sha3Kernel.HashLib.Blocks
/-!
# The sponge construction on bit strings

`SPONGE[f, pad, r](N, d)` over an arbitrary function `f` on bit strings: pad
`N` to whole blocks of `r` bits, XOR each block into the first `r` bits of the
`b`-bit state and apply `f`, then read `r` bits at a time until `d` are out.
-/

namespace HashLib.Sponge

open Blocks

/-- Bitwise XOR of two strings of one length. -/
def xorBits (s t : List Bool) : List Bool := List.zipWith xor s t

/-- `pad10*1(x, m)`: a one, as few zeros as make `m` plus the padding a
multiple of `x`, and a one. -/
def pad10star1 (x m : Nat) : List Bool :=
  [true] ++ List.replicate ((-(m : Int) - 2) % (x : Int)).toNat false ++ [true]

/-- XOR a block into the state and permute; `c` bits of the state see no input. -/
def absorbStep (f : List Bool → List Bool) (c : Nat) (S P : List Bool) : List Bool :=
  f (xorBits S (P ++ List.replicate c false))

/-- Read `r` bits of the state at a time until `d` are out. -/
def squeezeFrom (f : List Bool → List Bool) (r d : Nat) : Nat → List Bool → List Bool → List Bool
  | 0, Z, _ => Z.take d
  | fuel + 1, Z, S =>
    let Z := Z ++ S.take r
    if d ≤ Z.length then Z.take d else squeezeFrom f r d fuel Z (f S)

def sponge (f : List Bool → List Bool) (pad : Nat → Nat → List Bool) (b r : Nat) (N : List Bool) (d : Nat) :
    List Bool :=
  let P := N ++ pad r N.length
  let n := P.length / r
  let S := run (absorbStep f (b - r)) r n (List.replicate b false) P
  squeezeFrom f r d (d + 1) [] S

/-- The number of zeros of `pad10*1`, without negative numbers. -/
theorem pad10star1_eq (x m : Nat) (hx : 0 < x) :
    pad10star1 x m = [true] ++ List.replicate ((x - (m + 2) % x) % x) false ++ [true] := by
  have hlt := Nat.mod_lt (m + 2) hx
  have key : (-(m : Int) - 2) % (x : Int) = (((x - (m + 2) % x) % x : Nat) : Int) := by
    have e : -(m : Int) - 2 = ((x - (m + 2) % x : Nat) : Int) + (x : Int) * (-(((m + 2) / x : Nat) : Int) - 1) := by
      have h := Nat.mod_add_div (m + 2) x
      rw [Nat.cast_sub hlt.le]
      have h' : (((m + 2) % x : Nat) : Int) + (x : Int) * (((m + 2) / x : Nat) : Int) = (m : Int) + 2 := by
        exact_mod_cast h
      linear_combination h'
    rw [e, Int.add_mul_emod_self_left, Int.natCast_mod]
  rw [pad10star1, key, Int.toNat_natCast]

/-- An output no longer than a block is read off the state at once. -/
theorem squeezeFrom_one (f : List Bool → List Bool) {r d : Nat} (fuel : Nat) (S : List Bool) (hd : d ≤ r)
    (hS : r ≤ S.length) : squeezeFrom f r d (fuel + 1) [] S = S.take d := by
  have hl : (S.take r).length = r := by rw [List.length_take]; omega
  simp only [squeezeFrom, List.nil_append, hl, hd, if_true, List.take_take, Nat.min_eq_left hd]

end HashLib.Sponge
