import Sha3Kernel.HashLib.Fips202
/-!
# The scalar permutation (`keccak.rs`)

`keccak_f1600` as the code computes it: 25 lanes in a flat array, θ unrolled
into lane assignments, ρ and π fused through the tables `RHO` and `PI`, χ from
the scratch array `b` back into the state. The second half says what each part
leaves in the lane of column `x` and row `y`, and nothing after it unfolds a
step again.
-/

namespace Sha3Kernel

open HashLib.Bits

/-- `[u64; 25]`: lane `x + 5*y` is the lane in column `x` and row `y`. -/
abbrev Lanes := Vector U64 25

-- the lanes, for their indices
instance neZero_lanes : NeZero 25 := ⟨by decide⟩

def KECCAK_ROUNDS : Nat := 24

def RC : Vector U64 KECCAK_ROUNDS := #v[
  0x0000_0000_0000_0001, 0x0000_0000_0000_8082, 0x8000_0000_0000_808A, 0x8000_0000_8000_8000,
  0x0000_0000_0000_808B, 0x0000_0000_8000_0001, 0x8000_0000_8000_8081, 0x8000_0000_0000_8009,
  0x0000_0000_0000_008A, 0x0000_0000_0000_0088, 0x0000_0000_8000_8009, 0x0000_0000_8000_000A,
  0x0000_0000_8000_808B, 0x8000_0000_0000_008B, 0x8000_0000_0000_8089, 0x8000_0000_0000_8003,
  0x8000_0000_0000_8002, 0x8000_0000_0000_0080, 0x0000_0000_0000_800A, 0x8000_0000_8000_000A,
  0x8000_0000_8000_8081, 0x8000_0000_0000_8080, 0x0000_0000_8000_0001, 0x8000_0000_8000_8008]

/-- The ρ offsets, indexed `[x + 5*y]`. -/
def RHO : Vector Nat 25 := #v[
  0, 1, 62, 28, 27, 36, 44, 6, 55, 20, 3, 10, 43, 25, 39, 41, 45, 15, 21, 8, 18, 2, 61, 56, 14]

/-- The π sources: `new[i] = old[PI[i]]`. -/
def PI : Vector (Fin 25) 25 := #v[
  0, 6, 12, 18, 24, 3, 9, 10, 16, 22, 1, 7, 13, 19, 20, 4, 5, 11, 17, 23, 2, 8, 14, 15, 21]

def round_constants : Vector U64 KECCAK_ROUNDS := RC

/-! ## The steps of a round -/

/-- `state[i] ^= d` -/
def xor_lane (state : Lanes) (i : Fin 25) (d : U64) : Lanes := state.set i (state.get i ^^^ d)

def theta (state : Lanes) : Lanes :=
  let c0 := state.get 0 ^^^ state.get 5 ^^^ state.get 10 ^^^ state.get 15 ^^^ state.get 20
  let c1 := state.get 1 ^^^ state.get 6 ^^^ state.get 11 ^^^ state.get 16 ^^^ state.get 21
  let c2 := state.get 2 ^^^ state.get 7 ^^^ state.get 12 ^^^ state.get 17 ^^^ state.get 22
  let c3 := state.get 3 ^^^ state.get 8 ^^^ state.get 13 ^^^ state.get 18 ^^^ state.get 23
  let c4 := state.get 4 ^^^ state.get 9 ^^^ state.get 14 ^^^ state.get 19 ^^^ state.get 24
  let d0 := c4 ^^^ c1.rotateLeft 1
  let d1 := c0 ^^^ c2.rotateLeft 1
  let d2 := c1 ^^^ c3.rotateLeft 1
  let d3 := c2 ^^^ c4.rotateLeft 1
  let d4 := c3 ^^^ c0.rotateLeft 1
  let state := xor_lane state 0 d0
  let state := xor_lane state 5 d0
  let state := xor_lane state 10 d0
  let state := xor_lane state 15 d0
  let state := xor_lane state 20 d0
  let state := xor_lane state 1 d1
  let state := xor_lane state 6 d1
  let state := xor_lane state 11 d1
  let state := xor_lane state 16 d1
  let state := xor_lane state 21 d1
  let state := xor_lane state 2 d2
  let state := xor_lane state 7 d2
  let state := xor_lane state 12 d2
  let state := xor_lane state 17 d2
  let state := xor_lane state 22 d2
  let state := xor_lane state 3 d3
  let state := xor_lane state 8 d3
  let state := xor_lane state 13 d3
  let state := xor_lane state 18 d3
  let state := xor_lane state 23 d3
  let state := xor_lane state 4 d4
  let state := xor_lane state 9 d4
  let state := xor_lane state 14 d4
  let state := xor_lane state 19 d4
  let state := xor_lane state 24 d4
  state

/-- The loop that fills `b`. -/
def rho_pi (state : Lanes) : Lanes := Vector.ofFn fun i => (state.get (PI.get i)).rotateLeft (RHO.get (PI.get i))

/-- The loop that writes `state` from `b`, row by row: each entry is `f` of the
entry in its own column and in the next two. -/
def chi_rows {α : Type} (f : α → α → α → α) (b state : Vector α 25) : Vector α 25 :=
  (List.finRange 5).foldl (fun state y =>
    let base := 5 * y.val
    let state := state.set base (f b[base] b[base + 1] b[base + 2])
    let state := state.set (base + 1) (f b[base + 1] b[base + 2] b[base + 3])
    let state := state.set (base + 2) (f b[base + 2] b[base + 3] b[base + 4])
    let state := state.set (base + 3) (f b[base + 3] b[base + 4] b[base])
    let state := state.set (base + 4) (f b[base + 4] b[base] b[base + 1])
    state) state

def chi (b state : Lanes) : Lanes := chi_rows (fun b0 b1 b2 => b0 ^^^ (~~~b1 &&& b2)) b state

def iota (state : Lanes) (round : U64) : Lanes := xor_lane state 0 round

/-- The body of the round loop. -/
def keccak_round (state : Lanes) (round : U64) : Lanes :=
  let state := theta state
  let b := rho_pi state
  let state := chi b state
  iota state round

def keccak_f1600 (state : Lanes) : Lanes := (RC.toList.take KECCAK_ROUNDS).foldl keccak_round state

/-- The vector kernels run the same constants. -/
theorem round_constants_eq : round_constants.toList = RC.toList.take KECCAK_ROUNDS := by decide

/-! ## What each step leaves in a lane -/

theorem lane_lt (x y : Fin 5) : x.val + 5 * y.val < 25 := by omega

/-- The index of the lane in column `x` and row `y`. -/
def lane (x y : Fin 5) : Fin 25 := ⟨x.val + 5 * y.val, lane_lt x y⟩

theorem exists_lane (i : Fin 25) : ∃ x y, i = lane x y :=
  ⟨⟨i.val % 5, by omega⟩, ⟨i.val / 5, by omega⟩, Fin.ext (by simp only [lane]; omega)⟩

/-- States that agree in every row and column are equal. -/
theorem lanes_ext {s t : Lanes} (h : ∀ x y, s.get (lane x y) = t.get (lane x y)) : s = t := by
  refine Vector.ext fun i hi => ?_
  obtain ⟨x, y, hxy⟩ := exists_lane ⟨i, hi⟩
  obtain rfl : i = (lane x y).val := congrArg Fin.val hxy
  exact h x y

@[simp] theorem getElem_xor_lane (s : Lanes) (i : Fin 25) (d : U64) (j : Nat) (hj : j < 25) :
    (xor_lane s i d)[j] = if i.val = j then s[j] ^^^ d else s[j] := by
  simp only [xor_lane, Vector.getElem_set, Vector.get_eq_getElem]
  split
  · subst_vars; rfl
  · rfl

/-- The parity of column `x`. -/
def column (s : Lanes) (x : Fin 5) : U64 :=
  s.get (lane x 0) ^^^ s.get (lane x 1) ^^^ s.get (lane x 2) ^^^ s.get (lane x 3) ^^^ s.get (lane x 4)

theorem theta_lane (s : Lanes) (x y : Fin 5) :
    (theta s).get (lane x y) = s.get (lane x y) ^^^ (column s (x - 1) ^^^ (column s (x + 1)).rotateLeft 1) := by
  -- straight-line code: one evaluation for each of the 25 lanes
  fin_cases x <;> fin_cases y <;> simp [theta, lane, column, Vector.get_eq_getElem]

theorem rho_pi_lane (s : Lanes) (x y : Fin 5) :
    (rho_pi s).get (lane x y) = (s.get (lane (x + 3 * y) x)).rotateLeft (RHO.get (lane (x + 3 * y) x)) := by
  have hPI : ∀ x y : Fin 5, PI.get (lane x y) = lane (x + 3 * y) x := by decide
  rw [rho_pi, Vector.get_ofFn, hPI]

theorem chi_rows_lane {α : Type} (f : α → α → α → α) (b s : Vector α 25) (x y : Fin 5) :
    (chi_rows f b s).get (lane x y) = f (b.get (lane x y)) (b.get (lane (x + 1) y)) (b.get (lane (x + 2) y)) := by
  fin_cases x <;> fin_cases y <;> simp [chi_rows, lane, List.finRange_succ, Vector.get_eq_getElem]

theorem chi_lane (b s : Lanes) (x y : Fin 5) :
    (chi b s).get (lane x y) = b.get (lane x y) ^^^ (~~~b.get (lane (x + 1) y) &&& b.get (lane (x + 2) y)) :=
  chi_rows_lane _ b s x y

theorem iota_lane (s : Lanes) (r : U64) (x y : Fin 5) :
    (iota s r).get (lane x y) = if x = 0 ∧ y = 0 then s.get (lane x y) ^^^ r else s.get (lane x y) := by
  have h : (0 = x.val + 5 * y.val) ↔ x = 0 ∧ y = 0 := by
    rw [← Fin.val_inj, ← Fin.val_inj]
    simp only [Fin.val_zero]
    omega
  simp only [iota, lane, Vector.get_eq_getElem, getElem_xor_lane, Fin.val_zero, h]

example : (keccak_f1600 (Vector.replicate 25 0))[0] = 0xF1258F7940E1DDE7 := by decide +kernel

end Sha3Kernel
