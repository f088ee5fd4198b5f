import Sha3Kernel.HashLib.Arrays
import Sha3Kernel.HashLib.Intrinsics
import Sha3Kernel.Keccak
/-!
# Independent states side by side (`simd_parallel.rs`)

Register `i` holds lane `i` of all `n` states. Both widths run the same loops
over different vector operations, so the loops are written once over a `Width`,
which carries what each operation does to an element; `laneState j` reads state
`j` back out, and one round of the registers is one scalar round of each state.
-/

namespace Sha3Kernel

open HashLib HashLib.Bits HashLib.Intrinsics

/-! ## The operations of a width -/

/-- The vector operations one width is built from. -/
structure Width (n : Nat) where
  xor : Reg n → Reg n → Reg n
  /-- Rotate left by one, in θ. -/
  rotl1 : Reg n → Reg n
  /-- Rotate left by the ρ offset of lane `i`. -/
  rho : Fin 25 → Reg n → Reg n
  /-- `a ^ (!b & c)` -/
  chi : Reg n → Reg n → Reg n → Reg n
  /-- The round constant in every element. -/
  bcast : U64 → Reg n
  xor_elem : ∀ a b (j : Fin n), (xor a b).get j = a.get j ^^^ b.get j
  rotl1_elem : ∀ a (j : Fin n), (rotl1 a).get j = (a.get j).rotateLeft 1
  rho_elem : ∀ i a (j : Fin n), (rho i a).get j = (a.get j).rotateLeft (RHO.get i)
  chi_elem : ∀ a b e (j : Fin n), (chi a b e).get j = a.get j ^^^ (~~~b.get j &&& e.get j)
  bcast_elem : ∀ x (j : Fin n), (bcast x).get j = x

section Rounds
variable {n : Nat} (w : Width n)

def par_theta (reg : Vector (Reg n) 25) : Vector (Reg n) 25 :=
  let cs : Vector (Reg n) 5 := Vector.ofFn fun x =>
    w.xor (w.xor reg[x.val] reg[x.val + 5]) (w.xor reg[x.val + 10] (w.xor reg[x.val + 15] reg[x.val + 20]))
  let d : Vector (Reg n) 5 := Vector.ofFn fun x => w.xor cs[(x.val + 4) % 5] (w.rotl1 cs[(x.val + 1) % 5])
  (List.finRange 5).foldl (fun reg y => (List.finRange 5).foldl (fun reg x =>
    reg.set (x.val + 5 * y.val) (w.xor reg[x.val + 5 * y.val] (d.get x))) reg) reg

def par_rho_pi (reg : Vector (Reg n) 25) : Vector (Reg n) 25 :=
  Vector.ofFn fun i => w.rho (PI.get i) (reg.get (PI.get i))

def par_chi (b reg : Vector (Reg n) 25) : Vector (Reg n) 25 := chi_rows w.chi b reg

def par_round (reg : Vector (Reg n) 25) (rc : U64) : Vector (Reg n) 25 :=
  let reg := par_theta w reg
  let b := par_rho_pi w reg
  let reg := par_chi w b reg
  reg.set 0 (w.xor reg[0] (w.bcast rc))

end Rounds

/-! ## Eight states, AVX-512 -/

/-- `rot_bcast[i]` -/
def rot_bcast (i : Fin 25) : M512i := mm512_set1_epi64 (BitVec.ofNat 64 (RHO.get i))

def x8_width : Width 8 where
  xor := mm512_xor_si512
  rotl1 := mm512_rol_epi64 1
  rho i v := mm512_rolv_epi64 v (rot_bcast i)
  chi := mm512_ternarylogic_epi64 0xD2
  bcast := mm512_set1_epi64
  xor_elem a b j := getElem_xor_si a b j j.isLt
  rotl1_elem a j := getElem_mm512_rol_epi64 a j j.isLt 1
  rho_elem i a j := by
    have h : ∀ i : Fin 25, (BitVec.ofNat 64 (RHO.get i)).toNat % 64 = RHO.get i := by decide
    rw [Vector.get_eq_getElem, getElem_mm512_rolv_epi64, rot_bcast, mm512_set1_epi64, getElem_set1_epi, h]
    rfl
  chi_elem a b c j := getElem_mm512_ternarylogic_epi64_D2 a b c j j.isLt
  bcast_elem x j := getElem_set1_epi x j j.isLt

def keccak_f1600_x8_avx512 (states : Vector Lanes 8) : Vector Lanes 8 :=
  let reg : Vector M512i 25 := Vector.ofFn fun i =>
    mm512_set_epi64 ((states.get 7).get i) ((states.get 6).get i) ((states.get 5).get i) ((states.get 4).get i)
      ((states.get 3).get i) ((states.get 2).get i) ((states.get 1).get i) ((states.get 0).get i)
  let reg := round_constants.toList.foldl (par_round x8_width) reg
  Vector.ofFn fun s => Vector.ofFn fun i => (mm512_storeu_si512 (reg.get i)).get s

/-! ## Four states, AVX2 -/

def rotl (v n sixty_four_minus_n : M256i) : M256i :=
  mm256_or_si256 (mm256_sllv_epi64 v n) (mm256_srlv_epi64 v sixty_four_minus_n)

def rot_n (i : Fin 25) : M256i := mm256_set1_epi64x (BitVec.ofNat 64 (RHO.get i))
def rot_64_minus_n (i : Fin 25) : M256i := mm256_set1_epi64x (BitVec.ofNat 64 (64 - RHO.get i))

/-- Two shifts and an OR rotate, for a count that is not 0. -/
theorem getElem_rotl (v : M256i) (r : Nat) (h₀ : 0 < r) (hr : r < 64) (j : Nat) (hj : j < 4) :
    (rotl v (mm256_set1_epi64x (BitVec.ofNat 64 r)) (mm256_set1_epi64x (BitVec.ofNat 64 (64 - r))))[j] =
      v[j].rotateLeft r := by
  have e₁ : (BitVec.ofNat 64 r).toNat = r := by rw [BitVec.toNat_ofNat]; omega
  have e₂ : (BitVec.ofNat 64 (64 - r)).toNat = 64 - r := by rw [BitVec.toNat_ofNat]; omega
  simp only [rotl, getElem_mm256_or_si256, getElem_mm256_sllv_epi64, getElem_mm256_srlv_epi64, mm256_set1_epi64x,
    getElem_set1_epi, e₁, e₂]
  rw [if_pos hr, if_pos (by omega), BitVec.rotateLeft_def, Nat.mod_eq_of_lt hr]

def x4_width : Width 4 where
  xor := mm256_xor_si256
  rotl1 v := rotl v (mm256_set1_epi64x 1) (mm256_set1_epi64x 63)
  rho i v := if RHO.get i = 0 then v else rotl v (rot_n i) (rot_64_minus_n i)
  chi b0 b1 b2 := mm256_xor_si256 b0 (mm256_andnot_si256 b1 b2)
  bcast := mm256_set1_epi64x
  xor_elem a b j := getElem_xor_si a b j j.isLt
  rotl1_elem a j := getElem_rotl a 1 (by decide) (by decide) j j.isLt
  rho_elem i a j := by
    have h : ∀ i : Fin 25, RHO.get i < 64 := by decide
    split
    · next h0 => simp only [h0, rotateLeft_zero]
    · next h0 => exact getElem_rotl a (RHO.get i) (Nat.pos_of_ne_zero h0) (h i) j j.isLt
  chi_elem a b c j := by
    simp only [mm256_xor_si256, Vector.get_eq_getElem, getElem_xor_si, getElem_mm256_andnot_si256]
  bcast_elem x j := getElem_set1_epi x j j.isLt

def keccak_f1600_x4_avx2 (states : Vector Lanes 4) : Vector Lanes 4 :=
  let reg : Vector M256i 25 := Vector.ofFn fun i =>
    mm256_set_epi64x ((states.get 3).get i) ((states.get 2).get i) ((states.get 1).get i) ((states.get 0).get i)
  let reg := round_constants.toList.foldl (par_round x4_width) reg
  Vector.ofFn fun s => Vector.ofFn fun i => (mm256_storeu_si256 (reg.get i)).get s

/-! ## Reading one state out of the registers -/

section LaneState
variable {n : Nat} (w : Width n)

/-- State `j` of the registers. -/
def laneState (reg : Vector (Reg n) 25) (j : Fin n) : Lanes := Vector.ofFn fun i => (reg.get i).get j

theorem laneState_lane (reg : Vector (Reg n) 25) (j : Fin n) (x y : Fin 5) :
    (laneState reg j).get (lane x y) = (reg.get (lane x y)).get j := by
  rw [laneState, Vector.get_ofFn]

/-- Storing every register gives the states back. -/
theorem get_transpose (reg : Vector (Reg n) 25) (j : Fin n) :
    (Vector.ofFn fun s => Vector.ofFn fun i => (reg.get i).get s).get j = laneState reg j := by
  rw [Vector.get_ofFn]
  rfl

/-- The column of registers `x`. -/
def par_column (reg : Vector (Reg n) 25) (x : Fin 5) : Reg n :=
  w.xor (w.xor (reg.get (lane x 0)) (reg.get (lane x 1)))
    (w.xor (reg.get (lane x 2)) (w.xor (reg.get (lane x 3)) (reg.get (lane x 4))))

theorem par_column_elem (reg : Vector (Reg n) 25) (j : Fin n) (x : Fin 5) :
    (par_column w reg x).get j = column (laneState reg j) x := by
  simp only [par_column, w.xor_elem, column, laneState_lane, BitVec.xor_assoc]

theorem par_theta_lane (reg : Vector (Reg n) 25) (x y : Fin 5) :
    (par_theta w reg).get (lane x y) =
      w.xor (reg.get (lane x y)) (w.xor (par_column w reg (x - 1)) (w.rotl1 (par_column w reg (x + 1)))) := by
  unfold par_theta
  extract_lets cs d
  have hc : ∀ x : Fin 5, cs[x.val] = par_column w reg x := fun x => by
    simp only [cs, Vector.getElem_ofFn, par_column, lane]
    rfl
  have hd : d.get x = w.xor (par_column w reg (x - 1)) (w.rotl1 (par_column w reg (x + 1))) := by
    have e₁ : ∀ x : Fin 5, (x.val + 4) % 5 = (x - 1).val := by decide
    have e₂ : ∀ x : Fin 5, (x.val + 1) % 5 = (x + 1).val := by decide
    simp only [d, Vector.get_ofFn, e₁, e₂, hc]
  rw [← hd]
  -- the two loops reach every lane once, so each is updated from its old value
  have hnodup : (((List.finRange 5).flatMap fun y => (List.finRange 5).map (y, ·)).map
      (fun p : Fin 5 × Fin 5 => lane p.2 p.1)).Nodup := by decide
  have hmem : ∀ y x : Fin 5, (y, x) ∈ (List.finRange 5).flatMap fun y => (List.finRange 5).map (y, ·) := by decide
  have hloop := Arrays.nested_eq_updateEach (fun y x => lane x y) (fun _ x v => w.xor v (d.get x)) (List.finRange 5)
    (List.finRange 5) reg
  exact (congrArg (·.get (lane x y)) hloop).trans (Arrays.updateEach_of_mem _ _ _ reg hnodup (y, x) (hmem y x))

theorem par_chi_lane (b reg : Vector (Reg n) 25) (x y : Fin 5) :
    (par_chi w b reg).get (lane x y) =
      w.chi (b.get (lane x y)) (b.get (lane (x + 1) y)) (b.get (lane (x + 2) y)) :=
  chi_rows_lane _ b reg x y

theorem laneState_theta (reg : Vector (Reg n) 25) (j : Fin n) :
    laneState (par_theta w reg) j = theta (laneState reg j) := by
  refine lanes_ext fun x y => ?_
  rw [laneState_lane, par_theta_lane, theta_lane, w.xor_elem, w.xor_elem, w.rotl1_elem, par_column_elem,
    par_column_elem, laneState_lane]

theorem laneState_rho_pi (reg : Vector (Reg n) 25) (j : Fin n) :
    laneState (par_rho_pi w reg) j = rho_pi (laneState reg j) := by
  refine lanes_ext fun x y => ?_
  rw [laneState_lane, par_rho_pi, Vector.get_ofFn, w.rho_elem, rho_pi, Vector.get_ofFn, laneState, Vector.get_ofFn]

theorem laneState_chi (b reg : Vector (Reg n) 25) (j : Fin n) :
    laneState (par_chi w b reg) j = chi (laneState b j) (laneState reg j) := by
  refine lanes_ext fun x y => ?_
  rw [laneState_lane, par_chi_lane, chi_lane, w.chi_elem, laneState_lane, laneState_lane, laneState_lane]

theorem laneState_iota (reg : Vector (Reg n) 25) (rc : U64) (j : Fin n) :
    laneState (reg.set 0 (w.xor reg[0] (w.bcast rc))) j = iota (laneState reg j) rc := by
  have h := w.xor_elem reg[0] (w.bcast rc) j
  rw [w.bcast_elem] at h
  refine Vector.ext fun i hi => ?_
  simp only [laneState, iota, getElem_xor_lane, Vector.getElem_ofFn, Vector.get_eq_getElem, Vector.getElem_set,
    Fin.val_zero] at h ⊢
  split
  · next h0 => subst h0; exact h
  · rfl

theorem laneState_round (reg : Vector (Reg n) 25) (rc : U64) (j : Fin n) :
    laneState (par_round w reg rc) j = keccak_round (laneState reg j) rc := by
  unfold par_round keccak_round
  simp only [laneState_iota, laneState_chi, laneState_rho_pi, laneState_theta]

/-- All rounds: each state goes through the scalar rounds on its own. -/
theorem laneState_rounds (rcs : List U64) (reg : Vector (Reg n) 25) (j : Fin n) :
    laneState (rcs.foldl (par_round w) reg) j = rcs.foldl keccak_round (laneState reg j) := by
  induction rcs generalizing reg with
  | nil => rfl
  | cons rc rcs ih => rw [List.foldl_cons, List.foldl_cons, ih, laneState_round]

end LaneState

/-! ## Main theorems -/

theorem x8_get (states : Vector Lanes 8) (j : Fin 8) :
    (keccak_f1600_x8_avx512 states).get j = keccak_f1600 (states.get j) := by
  unfold keccak_f1600_x8_avx512 keccak_f1600
  extract_lets reg₀ reg
  have hload : laneState reg₀ j = states.get j := by
    refine Vector.ext fun i hi => ?_
    simp only [reg₀, laneState, Vector.get_eq_getElem, Vector.getElem_ofFn, mm512_set_epi64]
    fin_cases j <;> rfl
  rw [← round_constants_eq, ← hload, ← laneState_rounds]
  exact get_transpose reg j

theorem x4_get (states : Vector Lanes 4) (j : Fin 4) :
    (keccak_f1600_x4_avx2 states).get j = keccak_f1600 (states.get j) := by
  unfold keccak_f1600_x4_avx2 keccak_f1600
  extract_lets reg₀ reg
  have hload : laneState reg₀ j = states.get j := by
    refine Vector.ext fun i hi => ?_
    simp only [reg₀, laneState, Vector.get_eq_getElem, Vector.getElem_ofFn, mm256_set_epi64x]
    fin_cases j <;> rfl
  rw [← round_constants_eq, ← hload, ← laneState_rounds]
  exact get_transpose reg j

/-- Eight states, permuted in order; a state's result is the same whatever the
other seven are. -/
theorem keccak_f1600_x8_correct (s0 s1 s2 s3 s4 s5 s6 s7 : Lanes) :
    keccak_f1600_x8_avx512 #v[s0, s1, s2, s3, s4, s5, s6, s7] =
        #v[keccak_f1600 s0, keccak_f1600 s1, keccak_f1600 s2, keccak_f1600 s3,
          keccak_f1600 s4, keccak_f1600 s5, keccak_f1600 s6, keccak_f1600 s7] ∧
      ∀ (states others : Vector Lanes 8) (j : Fin 8),
        (keccak_f1600_x8_avx512 (others.set j (states.get j))).get j = (keccak_f1600_x8_avx512 states).get j := by
  refine ⟨Vector.ext fun j hj => ?_, fun states others j => ?_⟩
  · have h := x8_get #v[s0, s1, s2, s3, s4, s5, s6, s7] ⟨j, hj⟩
    refine h.trans ?_
    interval_cases j <;> rfl
  · rw [x8_get, x8_get]
    congr 1
    exact Vector.getElem_set_self _

/-- Four states, permuted in order; a state's result is the same whatever the
other three are. -/
theorem keccak_f1600_x4_correct (s0 s1 s2 s3 : Lanes) :
    keccak_f1600_x4_avx2 #v[s0, s1, s2, s3] =
        #v[keccak_f1600 s0, keccak_f1600 s1, keccak_f1600 s2, keccak_f1600 s3] ∧
      ∀ (states others : Vector Lanes 4) (j : Fin 4),
        (keccak_f1600_x4_avx2 (others.set j (states.get j))).get j = (keccak_f1600_x4_avx2 states).get j := by
  refine ⟨Vector.ext fun j hj => ?_, fun states others j => ?_⟩
  · have h := x4_get #v[s0, s1, s2, s3] ⟨j, hj⟩
    refine h.trans ?_
    interval_cases j <;> rfl
  · rw [x4_get, x4_get]
    congr 1
    exact Vector.getElem_set_self _

end Sha3Kernel
