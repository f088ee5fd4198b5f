import Sha3Kernel.HashLib.Bits
import Sha3Kernel.HashLib.Observe
import Sha3Kernel.State
/-!
# Comparing digests (`ct.rs`)

The loops visit every byte and OR the differences together, so what they show
depends on the lengths alone and the answer is still equality. The code is
written with its events: which way it branches and where it reads.
-/

namespace Sha3Kernel

open HashLib HashLib.Bits HashLib.Checked HashLib.Observe

/-! ## The code -/

/-- The loop of both comparisons: the differences of the first `n` bytes, ORed
together. -/
def differences (n : Nat) (a b : List U8) : Observed Empty U8 :=
  Observe.forRange 0 n (fun i acc => do
    let x ← Observe.index a i
    let y ← Observe.index b i
    pure (acc ||| (x ^^^ y))) 0

def ct_eq (a b : Slice U8) : Observed Empty Bool := do
  if ← branch (a.len != b.len) then
    pure false
  else
    let acc ← differences a.len a.val b.val
    pure (acc == 0)

def ct_hash_eq (a b : Sha3_512Hash) : Observed Empty Bool := do
  let acc ← differences 64 a.toList b.toList
  pure (acc == 0)

/-- No branch: the condition becomes a mask. -/
def ct_select (condition : Bool) (a b : U8) : U8 :=
  let mask := -(if condition then 1 else 0)
  (mask &&& a) ||| (~~~mask &&& b)

/-! ## What they answer -/

theorem differences_spec {n : Nat} {a b : List U8} (ha : n ≤ a.length) (hb : n ≤ b.length) :
    Returns (differences n a b).value (fun acc => acc = 0 ↔ a.take n = b.take n) := by
  unfold differences
  rw [value_forRange]
  refine forRange_spec (fun i (acc : U8) => acc = 0 ↔ a.take i = b.take i) (Nat.zero_le n) (by simp) ?_
  rintro i acc - hi hacc
  simp only [value_bind, value_index, value_pure]
  rw [index_eq (by omega), ok_bind, index_eq (by omega), ok_bind]
  refine .ret ?_
  refine BitVec.or_eq_zero_iff.trans ?_
  rw [BitVec.xor_eq_zero_iff, List.take_succ_eq_append_getElem (by omega),
    List.take_succ_eq_append_getElem (by omega)]
  refine (and_congr_left' hacc).trans ?_
  constructor
  · rintro ⟨htake, hbyte⟩
    rw [htake, hbyte]
  · intro h
    obtain ⟨htake, hbyte⟩ := List.append_inj' h rfl
    exact ⟨htake, List.singleton_inj.1 hbyte⟩

theorem ct_eq_value (a b : Slice U8) : (ct_eq a b).value = .ok (decide (a.val = b.val)) := by
  unfold ct_eq
  simp only [value_bind, value_branch, ok_bind, value_ite, value_pure]
  by_cases hlen : a.len = b.len
  · rw [if_neg (by simpa using hlen)]
    apply Returns.eq_ok
    refine (differences_spec (Nat.le_refl _) (Nat.le_of_eq hlen)).bind fun acc hacc => .ret ?_
    have hb : b.val.take a.val.length = b.val := List.take_of_length_le (Nat.le_of_eq hlen.symm)
    rw [List.take_of_length_le (Nat.le_refl a.val.length), hb] at hacc
    rw [← decide_eq_decide.2 hacc]
    rfl
  · have hne : a.val ≠ b.val := fun h => hlen (congrArg List.length h)
    rw [if_pos (by simpa using hlen), decide_eq_false hne]

theorem ct_hash_eq_value (a b : Sha3_512Hash) : (ct_hash_eq a b).value = .ok (decide (a = b)) := by
  unfold ct_hash_eq
  simp only [value_bind, value_pure]
  apply Returns.eq_ok
  refine (differences_spec (by simp) (by simp)).bind fun acc hacc => .ret ?_
  rw [List.take_of_length_le (by simp), List.take_of_length_le (by simp), Vector.toList_inj] at hacc
  rw [← decide_eq_decide.2 hacc]
  rfl

theorem ct_select_eq (condition : Bool) (a b : U8) : ct_select condition a b = if condition then a else b := by
  unfold ct_select
  have hmask : ∀ x : U8, 255#8 &&& x = x := fun x => BitVec.allOnes_and
  cases condition with
  | false => simp [hmask]
  | true => simp [hmask]

/-! ## What they show -/

theorem differences_same_view (n : Nat) {a b a' b' : List U8} (ha : a.length = a'.length) (hb : b.length = b'.length) :
    SameView (fun _ _ => True) (differences n a b) (differences n a' b') := by
  refine .forRange 0 n (fun i acc acc' _ => ?_) trivial
  refine (SameView.index ha i).bind fun x x' _ => ?_
  refine (SameView.index hb i).bind fun y y' _ => ?_
  exact .ret trivial

theorem ct_eq_same_view {a b a' b' : Slice U8} (ha : a.len = a'.len) (hb : b.len = b'.len) :
    SameView (fun _ _ => True) (ct_eq a b) (ct_eq a' b') := by
  unfold ct_eq
  rw [ha, hb]
  apply SameView.bind_same
  intro differ
  split
  · exact .ret trivial
  · exact (differences_same_view _ ha hb).bind fun _ _ _ => .ret trivial

/-- The comparisons never panic and answer whether the bytes are equal, and what
they show, branches and places read, is fixed by the lengths: two comparisons
of slices of the same lengths, or of any digests, cannot be told apart. -/
theorem ct_law :
    (∀ a b : Slice U8, (ct_eq a b).value = .ok (decide (a.val = b.val))) ∧
    (∀ a b : Sha3_512Hash, (ct_hash_eq a b).value = .ok (decide (a = b))) ∧
    (∀ a b a' b' : Slice U8, a.len = a'.len → b.len = b'.len → (ct_eq a b).events = (ct_eq a' b').events) ∧
    (∀ a b a' b' : Sha3_512Hash, (ct_hash_eq a b).events = (ct_hash_eq a' b').events) ∧
    ∀ (condition : Bool) (a b : U8), ct_select condition a b = if condition then a else b := by
  refine ⟨ct_eq_value, ct_hash_eq_value, fun a b a' b' ha hb => (ct_eq_same_view ha hb).events, ?_, ct_select_eq⟩
  intro a b a' b'
  have h : SameView (fun _ _ => True) (ct_hash_eq a b) (ct_hash_eq a' b') :=
    (differences_same_view 64 (by simp) (by simp)).bind fun _ _ _ => .ret trivial
  exact h.events

end Sha3Kernel
