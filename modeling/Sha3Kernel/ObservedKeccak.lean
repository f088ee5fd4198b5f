import Sha3Kernel.HashLib.Observe
import Sha3Kernel.Keccak
/-!
# What the permutation shows

The scalar permutation with every place it indexes, in its two arrays and in the
tables `PI` and `RHO`; the round constants come from an iterator, in order. It has no
branch, and its places are loop counters and table entries, so any two states show
the same.
-/

namespace Sha3Kernel

open HashLib HashLib.Arrays HashLib.Bits HashLib.Checked HashLib.Observe

/-! ## The code, with its events -/

/-- `state[i]` -/
def lane_at (state : Lanes) (i : Fin 25) : Observed Empty U64 := Observe.index state.toList i.val

/-- `state[i] ^= d` -/
def xor_lane_observed (state : Lanes) (i : Fin 25) (d : U64) : Observed Empty Lanes := do
  let x ← lane_at state i
  Observe.store state i.val (x ^^^ d)

/-- `state[x] ^ state[x + 5] ^ .. ^ state[x + 20]` -/
def column_observed (state : Lanes) (x : Fin 5) : Observed Empty U64 := do
  let a0 ← lane_at state (lane x 0)
  let a1 ← lane_at state (lane x 1)
  let a2 ← lane_at state (lane x 2)
  let a3 ← lane_at state (lane x 3)
  let a4 ← lane_at state (lane x 4)
  pure (a0 ^^^ a1 ^^^ a2 ^^^ a3 ^^^ a4)

/-- `state[x] ^= d; state[x + 5] ^= d; ..` -/
def xor_column_observed (state : Lanes) (x : Fin 5) (d : U64) : Observed Empty Lanes := do
  let state ← xor_lane_observed state (lane x 0) d
  let state ← xor_lane_observed state (lane x 1) d
  let state ← xor_lane_observed state (lane x 2) d
  let state ← xor_lane_observed state (lane x 3) d
  xor_lane_observed state (lane x 4) d

def theta_observed (state : Lanes) : Observed Empty Lanes := do
  let c0 ← column_observed state 0
  let c1 ← column_observed state 1
  let c2 ← column_observed state 2
  let c3 ← column_observed state 3
  let c4 ← column_observed state 4
  let d0 := c4 ^^^ c1.rotateLeft 1
  let d1 := c0 ^^^ c2.rotateLeft 1
  let d2 := c1 ^^^ c3.rotateLeft 1
  let d3 := c2 ^^^ c4.rotateLeft 1
  let d4 := c3 ^^^ c0.rotateLeft 1
  let state ← xor_column_observed state 0 d0
  let state ← xor_column_observed state 1 d1
  let state ← xor_column_observed state 2 d2
  let state ← xor_column_observed state 3 d3
  xor_column_observed state 4 d4

/-- `b[i] = state[PI[i]].rotate_left(RHO[PI[i]])` -/
def rho_pi_pass (state : Lanes) (i : Nat) (b : Lanes) : Observed Empty Lanes := do
  let src ← Observe.index PI.toList i
  let x ← lane_at state src
  let src ← Observe.index PI.toList i
  let n ← Observe.index RHO.toList src.val
  Observe.store b i (x.rotateLeft n)

def rho_pi_observed (state : Lanes) : Observed Empty Lanes :=
  Observe.forRange 0 25 (rho_pi_pass state) (Vector.replicate 25 0)

theorem entry_lt (y x : Fin 5) : 5 * y.val + x.val < 25 := by omega

/-- `base + x` -/
def entry (y x : Fin 5) : Fin 25 := ⟨5 * y.val + x.val, entry_lt y x⟩

/-- `state[i] = b[i] ^ ((!b[j]) & b[k])` -/
def chi_assign (b state : Lanes) (i j k : Fin 25) : Observed Empty Lanes := do
  let bi ← lane_at b i
  let bj ← lane_at b j
  let bk ← lane_at b k
  Observe.store state i.val (bi ^^^ (~~~bj &&& bk))

def chi_row_observed (b state : Lanes) (y : Fin 5) : Observed Empty Lanes := do
  let state ← chi_assign b state (entry y 0) (entry y 1) (entry y 2)
  let state ← chi_assign b state (entry y 1) (entry y 2) (entry y 3)
  let state ← chi_assign b state (entry y 2) (entry y 3) (entry y 4)
  let state ← chi_assign b state (entry y 3) (entry y 4) (entry y 0)
  chi_assign b state (entry y 4) (entry y 0) (entry y 1)

def chi_observed (b state : Lanes) : Observed Empty Lanes := (List.finRange 5).foldlM (chi_row_observed b) state

def keccak_round_observed (state : Lanes) (round : U64) : Observed Empty Lanes := do
  let state ← theta_observed state
  let b ← rho_pi_observed state
  let state ← chi_observed b state
  xor_lane_observed state 0 round

def keccak_f1600_observed (state : Lanes) : Observed Empty Lanes :=
  (RC.toList.take KECCAK_ROUNDS).foldlM keccak_round_observed state

/-! ## Leaving the events out -/

@[simp] theorem value_lane_at (state : Lanes) (i : Fin 25) : (lane_at state i).value = .ok (state.get i) := by
  unfold lane_at
  rw [value_index, index_eq (by simp)]
  rfl

@[simp] theorem value_xor_lane (state : Lanes) (i : Fin 25) (d : U64) :
    (xor_lane_observed state i d).value = .ok (xor_lane state i d) := by
  unfold xor_lane_observed
  rw [value_bind, value_lane_at, ok_bind, value_store, store_eq _ i.isLt]
  rfl

@[simp] theorem value_column (state : Lanes) (x : Fin 5) : (column_observed state x).value = .ok (column state x) := by
  unfold column_observed
  simp only [value_bind, value_lane_at, ok_bind, value_pure]
  rfl

theorem value_theta (state : Lanes) : (theta_observed state).value = .ok (theta state) := by
  unfold theta_observed xor_column_observed
  simp only [value_bind, value_column, value_xor_lane, ok_bind]
  rfl

/-- A pass writes the lane that its number names. -/
theorem value_rho_pi_pass (state b : Lanes) {i : Nat} (hi : i < 25) :
    (rho_pi_pass state i b).value = .ok (b.set i (rho_pi state)[i]) := by
  have hPI : Checked.index PI.toList i = .ok (PI.get ⟨i, hi⟩) := index_eq (by simpa using hi)
  have hRHO (j : Fin 25) : Checked.index RHO.toList j.val = .ok (RHO.get j) := index_eq (by simp)
  unfold rho_pi_pass
  simp only [value_bind, value_index, value_lane_at, value_store, hPI, hRHO, ok_bind]
  rw [store_eq _ hi]
  simp [rho_pi]

theorem value_rho_pi (state : Lanes) : (rho_pi_observed state).value = .ok (rho_pi state) := by
  apply Returns.eq_ok
  unfold rho_pi_observed
  rw [value_forRange]
  have hloop : Returns (Checked.forRange 0 25 (fun i b => (rho_pi_pass state i b).value) (Vector.replicate 25 0))
      (fun b => b.toList.take 25 = (rho_pi state).toList.take 25) := by
    refine forRange_spec (fun i (b : Lanes) => b.toList.take i = (rho_pi state).toList.take i) (Nat.zero_le 25)
      (by simp) ?_
    intro i b _ hi hlive
    refine .of_eq (value_rho_pi_pass state b hi) ?_
    rw [take_stored _ _ hi, hlive, List.take_succ_eq_append_getElem (by simpa using hi), Vector.getElem_toList]
  refine hloop.mono fun b hb => ?_
  rw [List.take_of_length_le (by simp), List.take_of_length_le (by simp)] at hb
  exact Vector.toList_inj.1 hb

theorem value_chi (b state : Lanes) : (chi_observed b state).value = .ok (chi b state) := by
  have hassign (b state : Lanes) (i j k : Fin 25) : (chi_assign b state i j k).value =
      .ok (state.set i.val (b.get i ^^^ (~~~b.get j &&& b.get k))) := by
    unfold chi_assign
    simp only [value_bind, value_lane_at, value_store, ok_bind]
    exact store_eq _ i.isLt
  unfold chi_observed
  rw [value_foldlM]
  simp only [chi_row_observed, value_bind, hassign, ok_bind]
  exact List.foldlM_pure

theorem value_keccak_round (state : Lanes) (round : U64) :
    (keccak_round_observed state round).value = .ok (keccak_round state round) := by
  unfold keccak_round_observed
  simp only [value_bind, value_theta, value_rho_pi, value_chi, value_xor_lane, ok_bind]
  rfl

theorem value_keccak_f1600 (state : Lanes) : (keccak_f1600_observed state).value = .ok (keccak_f1600 state) := by
  unfold keccak_f1600_observed
  rw [value_foldlM]
  simp only [value_keccak_round]
  exact List.foldlM_pure

/-! ## Two states show the same -/

theorem lane_at_same_view (state state' : Lanes) (i : Fin 25) :
    SameView (fun _ _ => True) (lane_at state i) (lane_at state' i) := .index (by simp) i.val

theorem xor_lane_same_view (state state' : Lanes) (i : Fin 25) (d d' : U64) :
    SameView (fun _ _ => True) (xor_lane_observed state i d) (xor_lane_observed state' i d') := by
  apply (lane_at_same_view state state' i).bind
  intro x x' _
  exact .store _ _ _ _ _

theorem column_same_view (state state' : Lanes) (x : Fin 5) :
    SameView (fun _ _ => True) (column_observed state x) (column_observed state' x) := by
  have hlane := lane_at_same_view state state'
  unfold column_observed
  refine (hlane _).bind fun _ _ _ => (hlane _).bind fun _ _ _ => (hlane _).bind fun _ _ _ => ?_
  exact (hlane _).bind fun _ _ _ => (hlane _).bind fun _ _ _ => .ret trivial

theorem xor_column_same_view (state state' : Lanes) (x : Fin 5) (d d' : U64) :
    SameView (fun _ _ => True) (xor_column_observed state x d) (xor_column_observed state' x d') := by
  have hlane := fun s s' i => xor_lane_same_view s s' i d d'
  unfold xor_column_observed
  refine (hlane _ _ _).bind fun _ _ _ => (hlane _ _ _).bind fun _ _ _ => ?_
  exact (hlane _ _ _).bind fun _ _ _ => (hlane _ _ _).bind fun _ _ _ => hlane _ _ _

theorem theta_same_view (state state' : Lanes) :
    SameView (fun _ _ => True) (theta_observed state) (theta_observed state') := by
  have hcolumn := column_same_view state state'
  unfold theta_observed
  refine (hcolumn 0).bind fun _ _ _ => (hcolumn 1).bind fun _ _ _ => (hcolumn 2).bind fun _ _ _ => ?_
  refine (hcolumn 3).bind fun _ _ _ => (hcolumn 4).bind fun _ _ _ => ?_
  refine (xor_column_same_view _ _ 0 _ _).bind fun _ _ _ => (xor_column_same_view _ _ 1 _ _).bind fun _ _ _ => ?_
  refine (xor_column_same_view _ _ 2 _ _).bind fun _ _ _ => (xor_column_same_view _ _ 3 _ _).bind fun _ _ _ => ?_
  exact xor_column_same_view _ _ 4 _ _

/-- The places come from the tables, which are the same for both. -/
theorem rho_pi_same_view (state state' : Lanes) :
    SameView (fun _ _ => True) (rho_pi_observed state) (rho_pi_observed state') := by
  refine .forRange 0 25 (fun i b b' _ => ?_) trivial
  apply SameView.bind_same
  intro src
  apply (lane_at_same_view state state' src).bind
  intro x x' _
  apply SameView.bind_same
  intro src'
  apply SameView.bind_same
  intro n
  exact .store _ _ _ _ _

theorem chi_same_view (b b' state state' : Lanes) :
    SameView (fun _ _ => True) (chi_observed b state) (chi_observed b' state') := by
  have hassign (s s' : Lanes) (i j k : Fin 25) :
      SameView (fun _ _ => True) (chi_assign b s i j k) (chi_assign b' s' i j k) := by
    have hlane := lane_at_same_view b b'
    refine (hlane i).bind fun _ _ _ => (hlane j).bind fun _ _ _ => (hlane k).bind fun _ _ _ => ?_
    exact .store _ _ _ _ _
  refine SameView.foldlM (A := Eq) ?_ (List.forall₂_eq_eq_eq ▸ rfl) trivial
  rintro s s' y _ _ rfl
  refine (hassign _ _ _ _ _).bind fun _ _ _ => (hassign _ _ _ _ _).bind fun _ _ _ => ?_
  refine (hassign _ _ _ _ _).bind fun _ _ _ => (hassign _ _ _ _ _).bind fun _ _ _ => ?_
  exact hassign _ _ _ _ _

theorem keccak_f1600_same_view (state state' : Lanes) :
    SameView (fun _ _ => True) (keccak_f1600_observed state) (keccak_f1600_observed state') := by
  refine SameView.foldlM (A := Eq) ?_ (List.forall₂_eq_eq_eq ▸ rfl) trivial
  rintro s s' round _ _ rfl
  apply (theta_same_view s s').bind
  intro s s' _
  apply (rho_pi_same_view s s').bind
  intro b b' _
  apply (chi_same_view b b' s s').bind
  intro s s' _
  exact xor_lane_same_view s s' 0 round round

/-! ## No branches -/

theorem xor_lane_branch_free (state : Lanes) (i : Fin 25) (d : U64) : BranchFree (xor_lane_observed state i d) :=
  (BranchFree.index _ _).bind fun _ => .store _ _ _

theorem theta_branch_free (state : Lanes) : BranchFree (theta_observed state) := by
  have hcolumn (x : Fin 5) : BranchFree (column_observed state x) := by
    refine (BranchFree.index _ _).bind fun _ => (BranchFree.index _ _).bind fun _ => ?_
    refine (BranchFree.index _ _).bind fun _ => (BranchFree.index _ _).bind fun _ => ?_
    exact (BranchFree.index _ _).bind fun _ => .ret _
  have hxor (s : Lanes) (x : Fin 5) (d : U64) : BranchFree (xor_column_observed s x d) := by
    refine (xor_lane_branch_free _ _ _).bind fun _ => (xor_lane_branch_free _ _ _).bind fun _ => ?_
    refine (xor_lane_branch_free _ _ _).bind fun _ => (xor_lane_branch_free _ _ _).bind fun _ => ?_
    exact xor_lane_branch_free _ _ _
  refine (hcolumn 0).bind fun _ => (hcolumn 1).bind fun _ => (hcolumn 2).bind fun _ => ?_
  refine (hcolumn 3).bind fun _ => (hcolumn 4).bind fun _ => ?_
  refine (hxor _ _ _).bind fun _ => (hxor _ _ _).bind fun _ => (hxor _ _ _).bind fun _ => ?_
  exact (hxor _ _ _).bind fun _ => hxor _ _ _

theorem rho_pi_branch_free (state : Lanes) : BranchFree (rho_pi_observed state) := by
  refine .forRange (fun i b => ?_) 0 25 _
  refine (BranchFree.index _ _).bind fun _ => (BranchFree.index _ _).bind fun _ => ?_
  exact (BranchFree.index _ _).bind fun _ => (BranchFree.index _ _).bind fun _ => .store _ _ _

theorem chi_branch_free (b state : Lanes) : BranchFree (chi_observed b state) := by
  have hassign (s : Lanes) (i j k : Fin 25) : BranchFree (chi_assign b s i j k) := by
    refine (BranchFree.index _ _).bind fun _ => (BranchFree.index _ _).bind fun _ => ?_
    exact (BranchFree.index _ _).bind fun _ => .store _ _ _
  refine .foldlM (fun s y => ?_) _ _
  refine (hassign _ _ _ _).bind fun _ => (hassign _ _ _ _).bind fun _ => (hassign _ _ _ _).bind fun _ => ?_
  exact (hassign _ _ _ _).bind fun _ => hassign _ _ _ _

theorem keccak_f1600_branch_free (state : Lanes) : BranchFree (keccak_f1600_observed state) := by
  refine .foldlM (fun s round => ?_) _ _
  refine (theta_branch_free s).bind fun s => (rho_pi_branch_free s).bind fun b => ?_
  exact (chi_branch_free b s).bind fun s => xor_lane_branch_free s 0 round

/-- The permutation with its events computes `keccak_f1600`. It takes no branch,
and the places it indexes, in the state, in its scratch array and in the tables, are
the same for every state. -/
theorem keccak_f1600_view :
    (∀ state, (keccak_f1600_observed state).value = .ok (keccak_f1600 state)) ∧
    (∀ state, BranchFree (keccak_f1600_observed state)) ∧
    ∀ state state', (keccak_f1600_observed state).events = (keccak_f1600_observed state').events :=
  ⟨value_keccak_f1600, keccak_f1600_branch_free, fun state state' => (keccak_f1600_same_view state state').events⟩

end Sha3Kernel
