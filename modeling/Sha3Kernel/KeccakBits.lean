import Sha3Kernel.HashLib.Fips202Bijective
import Sha3Kernel.Keccak
/-!
# `keccak_f1600` is Keccak-f[1600]

`stateArray` reads a state of lanes bit by bit. Under it the steps of the code,
tables included, are the step mappings of the standard: the offsets `RHO` are
the ones the walk of ρ assigns, and the constants `RC` are the LFSR's.
-/

namespace Sha3Kernel

open HashLib HashLib.Bits

/-- `A[x, y, z]` is bit `z` of lane `x + 5*y`. -/
def stateArray (s : Lanes) : Fips202.StateArray := fun x y z => (s.get (lane x y)).getLsbD z.val

theorem stateArray_injective : Function.Injective stateArray := by
  intro s t h
  refine lanes_ext fun x y => BitVec.eq_of_getLsbD_eq fun z hz => ?_
  exact congrFun (congrFun (congrFun h x) y) ⟨z, hz⟩

/-- The lanes of a state array. -/
def ofStateArray (A : Fips202.StateArray) : Lanes :=
  Vector.ofFn fun i => ofBits (A (Fin.ofNat 5 i.val) (Fin.ofNat 5 (i.val / 5)))

theorem stateArray_ofStateArray (A : Fips202.StateArray) : stateArray (ofStateArray A) = A := by
  funext x y z
  have hx : Fin.ofNat 5 (lane x y).val = x := Fin.ext (by simp only [lane, Fin.val_ofNat]; omega)
  have hy : Fin.ofNat 5 ((lane x y).val / 5) = y := Fin.ext (by simp only [lane, Fin.val_ofNat]; omega)
  simp only [stateArray, ofStateArray, Vector.get_ofFn, getLsbD_ofBits, hx, hy]

/-! ## The step mappings -/

theorem parity_bit (s : Lanes) (x : Fin 5) (z : Fin 64) :
    (column s x).getLsbD z.val = Fips202.parity (stateArray s) x z := by
  simp only [column, BitVec.getLsbD_xor, Fips202.parity, stateArray]

theorem theta_bits (s : Lanes) : stateArray (theta s) = Fips202.theta (stateArray s) := by
  funext x y z
  unfold stateArray
  rw [theta_lane, BitVec.getLsbD_xor, BitVec.getLsbD_xor, getLsbD_rotateLeft, parity_bit, parity_bit]
  rfl

/-- The table of rotations agrees with the walk, lane by lane. -/
theorem RHO_walk (x y : Fin 5) : RHO.get (lane x y) = Fips202.rhoOffset x y % 64 := by
  revert x y
  decide +kernel

theorem rho_pi_bits (s : Lanes) : stateArray (rho_pi s) = Fips202.pi (Fips202.rho (stateArray s)) := by
  funext x y z
  unfold stateArray
  rw [rho_pi_lane, getLsbD_rotateLeft, RHO_walk]
  simp only [Fips202.pi, Fips202.rho]
  congr 3
  exact Fin.ext (by simp)

theorem chi_bits (b s : Lanes) : stateArray (chi b s) = Fips202.chi (stateArray b) := by
  funext x y z
  unfold stateArray
  rw [chi_lane, BitVec.getLsbD_xor, BitVec.getLsbD_and, BitVec.getLsbD_not, decide_eq_true z.isLt, Bool.true_and]
  rfl

/-- The constants of the table are the LFSR's, bit by bit. -/
theorem RC_lfsr (ir : Fin 24) (z : Fin 64) :
    RC[ir.val].getLsbD z.val = Fips202.roundConstant ir.val z := by
  revert ir z
  decide +kernel

theorem iota_bits (s : Lanes) (ir : Fin 24) :
    stateArray (iota s RC[ir.val]) = Fips202.iota (stateArray s) ir.val := by
  funext x y z
  unfold stateArray Fips202.iota
  rw [iota_lane]
  split
  · rw [BitVec.getLsbD_xor, RC_lfsr]
  · rfl

theorem keccak_round_bits (s : Lanes) (ir : Fin 24) :
    stateArray (keccak_round s RC[ir.val]) = Fips202.rnd (stateArray s) ir.val := by
  unfold keccak_round Fips202.rnd
  rw [iota_bits, chi_bits, rho_pi_bits, theta_bits]

/-! ## The permutation -/

theorem rounds_eq : RC.toList.take KECCAK_ROUNDS = (List.finRange 24).map fun ir => RC[ir.val] := by
  decide

/-- `keccak_f1600` computes Keccak-f[1600] on every state. -/
theorem keccak_f1600_bits (s : Lanes) : stateArray (keccak_f1600 s) = Fips202.keccakF (stateArray s) := by
  have hrun : ∀ (l : List (Fin 24)) (s : Lanes),
      stateArray (l.foldl (fun s ir => keccak_round s RC[ir.val]) s) =
        (l.map Fin.val).foldl Fips202.rnd (stateArray s) := by
    intro l
    induction l with
    | nil => intro s; rfl
    | cons ir l ih =>
      intro s
      rw [List.foldl_cons, ih, List.map_cons, List.foldl_cons, keccak_round_bits]
  unfold keccak_f1600 Fips202.keccakF
  rw [rounds_eq, List.foldl_map, hrun]
  rfl

/-- Bit for bit: lane `x + 5*y` of the result is what 24 iterations of
ι ∘ χ ∘ π ∘ ρ ∘ θ leave in column `x` and row `y`. -/
theorem keccak_f1600_fips202 (s : Lanes) (x y : Fin 5) (z : Fin 64) :
    (keccak_f1600 s)[x.val + 5 * y.val].getLsbD z.val =
      (List.range 24).foldl
        (fun A ir => Fips202.iota (Fips202.chi (Fips202.pi (Fips202.rho (Fips202.theta A)))) ir)
        (fun x y z => s[x.val + 5 * y.val].getLsbD z.val) x y z := by
  have h := keccak_f1600_bits s
  exact congrFun (congrFun (congrFun h x) y) z

/-- `keccak_f1600` is a bijection: distinct states have distinct outputs, and
every state is an output. -/
theorem keccak_f1600_bijective : Function.Bijective keccak_f1600 := by
  constructor
  · intro s t h
    apply stateArray_injective
    apply Fips202.keccakF_injective
    rw [← keccak_f1600_bits, ← keccak_f1600_bits, h]
  · intro t
    obtain ⟨A, hA⟩ := Fips202.keccakF_bijective.2 (stateArray t)
    refine ⟨ofStateArray A, stateArray_injective ?_⟩
    rw [keccak_f1600_bits, stateArray_ofStateArray, hA]

end Sha3Kernel
