import Sha3Kernel.HashLib.Intrinsics
import Sha3Kernel.Keccak
/-!
# One state across AVX-512 registers (`simd_avx512.rs`)

The 5×5 lanes as five registers, one for each row, with three padding elements
whose contents nothing depends on. `Rows` relates such registers to a scalar
state by the 25 live elements only, so θ may fill the padding with anything;
every round keeps it.
-/

namespace Sha3Kernel

open HashLib.Bits HashLib.Intrinsics

/-! ## Tables -/

/-- `ROT_ROW[y][x]` is `RHO[5*y + x]`, and 0 in the padding. -/
def ROT_ROW : Vector (Vector U64 8) 5 := #v[
  #v[BitVec.ofNat 64 (RHO.get 0), BitVec.ofNat 64 (RHO.get 1), BitVec.ofNat 64 (RHO.get 2),
    BitVec.ofNat 64 (RHO.get 3), BitVec.ofNat 64 (RHO.get 4), 0, 0, 0],
  #v[BitVec.ofNat 64 (RHO.get 5), BitVec.ofNat 64 (RHO.get 6), BitVec.ofNat 64 (RHO.get 7),
    BitVec.ofNat 64 (RHO.get 8), BitVec.ofNat 64 (RHO.get 9), 0, 0, 0],
  #v[BitVec.ofNat 64 (RHO.get 10), BitVec.ofNat 64 (RHO.get 11), BitVec.ofNat 64 (RHO.get 12),
    BitVec.ofNat 64 (RHO.get 13), BitVec.ofNat 64 (RHO.get 14), 0, 0, 0],
  #v[BitVec.ofNat 64 (RHO.get 15), BitVec.ofNat 64 (RHO.get 16), BitVec.ofNat 64 (RHO.get 17),
    BitVec.ofNat 64 (RHO.get 18), BitVec.ofNat 64 (RHO.get 19), 0, 0, 0],
  #v[BitVec.ofNat 64 (RHO.get 20), BitVec.ofNat 64 (RHO.get 21), BitVec.ofNat 64 (RHO.get 22),
    BitVec.ofNat 64 (RHO.get 23), BitVec.ofNat 64 (RHO.get 24), 0, 0, 0]]

def THETA_MINUS1_IDX : Vector U64 8 := #v[4, 0, 1, 2, 3, 0, 0, 0]
def THETA_PLUS1_IDX : Vector U64 8 := #v[1, 2, 3, 4, 0, 0, 0, 0]
def CHI_SHIFT1_IDX : Vector U64 8 := #v[1, 2, 3, 4, 0, 0, 0, 0]
def CHI_SHIFT2_IDX : Vector U64 8 := #v[2, 3, 4, 0, 1, 0, 0, 0]

/-- Truth table of `a ^ (!b & c)`. -/
def CHI_TERNARY_IMM : U8 := 0xD2

def source_row (j : Fin 25) : Nat := (PI.get j).val / 5
def source_lane (j : Fin 25) : Nat := (PI.get j).val % 5

/-- Bit `x` is set when lane `x` of row `z` comes from row `y`. -/
def pi_mask (z y : Fin 5) : U8 :=
  (List.finRange 5).foldl (fun mask x =>
    if source_row ⟨5 * z.val + x.val, by omega⟩ = y.val then mask ||| (1 <<< x.val) else mask) 0

/-- The source lanes of row `z` in row `y`, where the mask bit is set. -/
def pi_idx (z y : Fin 5) : Vector U64 8 :=
  (List.finRange 5).foldl (fun idx x =>
    if source_row ⟨5 * z.val + x.val, by omega⟩ = y.val then
      idx.set x.val (BitVec.ofNat 64 (source_lane ⟨5 * z.val + x.val, by omega⟩))
    else idx) (Vector.replicate 8 0)

def PI_MASKS : Vector (Vector U8 5) 5 := Vector.ofFn fun z => Vector.ofFn fun y => pi_mask z y
def PI_IDXS : Vector (Vector (Vector U64 8) 5) 5 := Vector.ofFn fun z => Vector.ofFn fun y => pi_idx z y

/-! ## The permutation -/

/-- The state in five rows of eight, the padding lanes zero. -/
def padded_in (state : Lanes) : Vector U64 40 :=
  Vector.ofFn fun k => if h : k.val % 8 < 5 then state[k.val / 8 * 5 + k.val % 8] else 0

/-- `padded[8*y..8*y + 8]` -/
def padded_row (padded : Vector U64 40) (y : Fin 5) : Vector U64 8 :=
  Vector.ofFn fun i => padded[y.val * 8 + i.val]

def avx512_theta (row : Vector M512i 5) : Vector M512i 5 :=
  let c := row[0]
  let c := mm512_xor_si512 c row[1]
  let c := mm512_xor_si512 c row[2]
  let c := mm512_xor_si512 c row[3]
  let c := mm512_xor_si512 c row[4]
  let c_minus1 := mm512_permutexvar_epi64 (mm512_loadu_si512 THETA_MINUS1_IDX) c
  let c_plus1 := mm512_permutexvar_epi64 (mm512_loadu_si512 THETA_PLUS1_IDX) c
  let c_plus1_rot1 := mm512_rol_epi64 1 c_plus1
  let d := mm512_xor_si512 c_minus1 c_plus1_rot1
  row.map fun r => mm512_xor_si512 r d

def avx512_rho (row : Vector M512i 5) : Vector M512i 5 :=
  Vector.ofFn fun y => mm512_rolv_epi64 row[y] (mm512_loadu_si512 ROT_ROW[y])

/-- A permute and a blend for each destination row `z` and source row `y`. -/
def avx512_pi (rotated : Vector M512i 5) : Vector M512i 5 :=
  Vector.ofFn fun z => (List.finRange 5).foldl (fun acc y =>
    let candidate := mm512_permutexvar_epi64 (mm512_loadu_si512 PI_IDXS[z][y]) rotated[y]
    mm512_mask_blend_epi64 PI_MASKS[z][y] acc candidate) mm512_setzero_si512

def avx512_chi (new_row : Vector M512i 5) : Vector M512i 5 :=
  new_row.map fun a =>
    let b := mm512_permutexvar_epi64 (mm512_loadu_si512 CHI_SHIFT1_IDX) a
    let c := mm512_permutexvar_epi64 (mm512_loadu_si512 CHI_SHIFT2_IDX) a
    mm512_ternarylogic_epi64 CHI_TERNARY_IMM a b c

def avx512_iota (row : Vector M512i 5) (rc : U64) : Vector M512i 5 :=
  let rc_lanes := (Vector.replicate 8 (0 : U64)).set 0 rc
  row.set 0 (mm512_xor_si512 row[0] (mm512_loadu_si512 rc_lanes))

def avx512_round (row : Vector M512i 5) (rc : U64) : Vector M512i 5 :=
  avx512_iota (avx512_chi (avx512_pi (avx512_rho (avx512_theta row)))) rc

def keccak_f1600_avx512 (state : Lanes) : Lanes :=
  let row := Vector.ofFn fun y => mm512_loadu_si512 (padded_row (padded_in state) y)
  let row := round_constants.toList.foldl avx512_round row
  Vector.ofFn fun i => (mm512_storeu_si512 row[i.val / 5])[i.val % 5]

/-- `is_x86_feature_detected!("avx512f")` answers `avx512f`. -/
def keccak_f1600_dispatch (avx512f : Bool) (state : Lanes) (use_avx512 : Bool) : Lanes :=
  if use_avx512 && avx512f then keccak_f1600_avx512 state else keccak_f1600 state

/-! ## The rows hold a scalar state -/

/-- The live elements of the registers are the lanes of `s`. -/
def Rows (row : Vector M512i 5) (s : Lanes) : Prop := ∀ x y : Fin 5, row[y][x.val] = s.get (lane x y)

theorem rows_load (s : Lanes) :
    Rows (Vector.ofFn fun y => mm512_loadu_si512 (padded_row (padded_in s) y)) s := by
  intro x y
  have hx := x.isLt
  have e₁ : (y.val * 8 + x.val) % 8 = x.val := by omega
  have e₂ : (y.val * 8 + x.val) / 8 * 5 + x.val = x.val + 5 * y.val := by omega
  simp only [Fin.getElem_fin, Vector.getElem_ofFn, mm512_loadu_si512, padded_row, padded_in, e₁, hx, dif_pos, e₂]
  rfl

theorem lanes_of_rows {row : Vector M512i 5} {s : Lanes} (h : Rows row s) :
    (Vector.ofFn fun i : Fin 25 => (mm512_storeu_si512 row[i.val / 5])[i.val % 5]) = s := by
  refine lanes_ext fun x y => ?_
  have hx : (lane x y).val % 5 = x.val := by simp only [lane]; omega
  have hy : (lane x y).val / 5 = y.val := by simp only [lane]; omega
  rw [Vector.get_ofFn, ← h x y]
  simp only [mm512_storeu_si512, hx, hy, Fin.getElem_fin]

/-! ## One lemma for each step -/

theorem rows_theta {row : Vector M512i 5} {s : Lanes} (h : Rows row s) : Rows (avx512_theta row) (theta s) := by
  have hc : ∀ x : Fin 5, row[0][x.val] ^^^ row[1][x.val] ^^^ row[2][x.val] ^^^ row[3][x.val] ^^^ row[4][x.val] =
      column s x := fun x => by
    rw [column, ← h x 0, ← h x 1, ← h x 2, ← h x 3, ← h x 4]
    rfl
  have hminus : ∀ x : Fin 5, THETA_MINUS1_IDX[x.val].toNat % 8 = (x - 1).val := by decide
  have hplus : ∀ x : Fin 5, THETA_PLUS1_IDX[x.val].toNat % 8 = (x + 1).val := by decide
  intro x y
  rw [theta_lane, ← h x y]
  simp [avx512_theta, mm512_xor_si512, mm512_loadu_si512, hminus, hplus, hc]

/-- A fold of blends keeps, at element `x`, the candidate of the one row whose
mask has bit `x` set. -/
theorem blend_fold (mask : Fin 5 → U8) (candidate : Fin 5 → M512i) (x r : Fin 5)
    (hmask : ∀ y, (mask y).getLsbD x.val = decide (y = r)) (l : List (Fin 5)) (acc : M512i) :
    (l.foldl (fun acc y => mm512_mask_blend_epi64 (mask y) acc (candidate y)) acc)[x.val] =
      if r ∈ l then (candidate r)[x.val] else acc[x.val] := by
  induction l generalizing acc with
  | nil => simp
  | cons y l ih =>
    rw [List.foldl_cons, ih, getElem_mm512_mask_blend_epi64, hmask]
    by_cases hl : r ∈ l
    · simp [hl]
    · by_cases hy : y = r
      · simp [hy]
      · simp [hl, hy, Ne.symm hy]

theorem rows_rho_pi {row : Vector M512i 5} {s : Lanes} (h : Rows row s) :
    Rows (avx512_pi (avx512_rho row)) (rho_pi s) := by
  -- lane `x` of row `z` comes from row `x`, at lane `x + 3 * z`
  have hmask : ∀ z x y : Fin 5, PI_MASKS[z][y].getLsbD x.val = decide (y = x) := by decide
  have hidx : ∀ z x : Fin 5, PI_IDXS[z][x][x.val].toNat % 8 = (x + 3 * z).val := by decide
  have hrot : ∀ x y : Fin 5, ROT_ROW[y][x.val].toNat % 64 = RHO.get (lane x y) := by decide
  intro x z
  have hfold := blend_fold (fun y => PI_MASKS[z][y])
    (fun y => mm512_permutexvar_epi64 (mm512_loadu_si512 PI_IDXS[z][y]) (avx512_rho row)[y]) x x (hmask z x)
    (List.finRange 5) mm512_setzero_si512
  rw [if_pos (List.mem_finRange x), getElem_mm512_permutexvar_epi64] at hfold
  have hx := h (x + 3 * z) x
  simp only [Fin.getElem_fin] at hidx hrot hx hfold
  rw [rho_pi_lane]
  simp only [avx512_pi, Fin.getElem_fin, Vector.getElem_ofFn, hfold]
  simp only [mm512_loadu_si512, hidx, avx512_rho, Fin.getElem_fin, Vector.getElem_ofFn, getElem_mm512_rolv_epi64,
    hrot, hx]

theorem rows_chi {row : Vector M512i 5} {b : Lanes} (s : Lanes) (h : Rows row b) :
    Rows (avx512_chi row) (chi b s) := by
  have h₁ : ∀ x : Fin 5, CHI_SHIFT1_IDX[x.val].toNat % 8 = (x + 1).val := by decide
  have h₂ : ∀ x : Fin 5, CHI_SHIFT2_IDX[x.val].toNat % 8 = (x + 2).val := by decide
  intro x y
  rw [chi_lane, ← h x y, ← h (x + 1) y, ← h (x + 2) y]
  simp only [avx512_chi, Fin.getElem_fin, Vector.getElem_map, show CHI_TERNARY_IMM = 0xD2 from rfl,
    getElem_mm512_ternarylogic_epi64_D2, getElem_mm512_permutexvar_epi64, mm512_loadu_si512, h₁, h₂]

theorem rows_iota {row : Vector M512i 5} {s : Lanes} (rc : U64) (h : Rows row s) :
    Rows (avx512_iota row rc) (iota s rc) := by
  intro x y
  rw [iota_lane, ← h x y]
  fin_cases x <;> fin_cases y <;> simp [avx512_iota, mm512_xor_si512, mm512_loadu_si512]

theorem rows_round {row : Vector M512i 5} {s : Lanes} (rc : U64) (h : Rows row s) :
    Rows (avx512_round row rc) (keccak_round s rc) := by
  unfold avx512_round keccak_round
  exact rows_iota rc (rows_chi _ (rows_rho_pi (rows_theta h)))

theorem rows_rounds (rcs : List U64) {row : Vector M512i 5} {s : Lanes} (h : Rows row s) :
    Rows (rcs.foldl avx512_round row) (rcs.foldl keccak_round s) := by
  induction rcs generalizing row s with
  | nil => exact h
  | cons rc rcs ih =>
    rw [List.foldl_cons, List.foldl_cons]
    exact ih (rows_round rc h)

/-! ## The permutation -/

/-- The vector permutation and the scalar one agree on every state. -/
theorem avx512_eq_scalar (s : Lanes) : keccak_f1600_avx512 s = keccak_f1600 s := by
  unfold keccak_f1600_avx512 keccak_f1600
  rw [← round_constants_eq]
  exact lanes_of_rows (rows_rounds _ (rows_load s))

theorem dispatch_eq_scalar (avx512f : Bool) (s : Lanes) (use_avx512 : Bool) :
    keccak_f1600_dispatch avx512f s use_avx512 = keccak_f1600 s := by
  unfold keccak_f1600_dispatch
  split
  · exact avx512_eq_scalar s
  · rfl

/-- `keccak_f1600_avx512` leaves exactly the lanes of `keccak_f1600`, so the
dispatch does not depend on the flag or on the CPU. -/
theorem keccak_f1600_avx512_correct (s : Lanes) :
    keccak_f1600_avx512 s = keccak_f1600 s ∧
      ∀ avx512f use_avx512, keccak_f1600_dispatch avx512f s use_avx512 = keccak_f1600 s :=
  ⟨avx512_eq_scalar s, fun avx512f use_avx512 => dispatch_eq_scalar avx512f s use_avx512⟩

end Sha3Kernel
