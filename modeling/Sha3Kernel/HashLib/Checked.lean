import Sha3Kernel.HashLib.Arrays
/-!
# Checked computations

What a safe Rust body can do besides returning: panic, or never return.
`Result` keeps these apart, the arithmetic and the indexing below fail exactly
where Rust panics with overflow checks on, and `Returns` is the total
correctness judgement the specs are stated in; `Ends` also says which faults a
body may stop at. `usize` is 64 bits wide.
-/

namespace HashLib.Checked

open Arrays

/-- Why a body does not return a value. -/
inductive Fault where
  | overflow
  | underflow
  | outOfBounds
  | lengthMismatch
  | assertion
  /-- A loop was still running when its fuel was spent. -/
  | diverges
  deriving DecidableEq, Repr

abbrev Result := Except Fault

def usizeMax : Nat := 2 ^ 64 - 1

/-- No slice is longer than this many bytes. -/
def isizeMax : Nat := 2 ^ 63 - 1

/-- A borrowed slice `&[T]` of one-byte elements. -/
structure Slice (α : Type) where
  val : List α
  len_le : val.length ≤ isizeMax

namespace Slice
variable {α : Type}

def len (s : Slice α) : Nat := s.val.length

@[simp] theorem val_length (s : Slice α) : s.val.length = s.len := rfl

theorem len_add_lt (s : Slice α) (n : Nat) (hn : n ≤ 2 ^ 63) : s.len + n ≤ usizeMax := by
  have h := s.len_le
  simp only [isizeMax, usizeMax, val_length] at *
  omega

end Slice

/-! ## Total correctness -/

/-- `m` returns a value satisfying `P`: no panic, and no endless loop. -/
def Returns {α : Type} (m : Result α) (P : α → Prop) : Prop := ∃ x, m = .ok x ∧ P x

namespace Returns
variable {α β : Type}

theorem ret {x : α} {P : α → Prop} (h : P x) : Returns (.ok x) P := ⟨x, rfl, h⟩

theorem of_eq {m : Result α} {x : α} {P : α → Prop} (hm : m = .ok x) (h : P x) : Returns m P :=
  ⟨x, hm, h⟩

theorem mono {m : Result α} {P Q : α → Prop} (h : Returns m P) (hq : ∀ x, P x → Q x) :
    Returns m Q := by
  obtain ⟨x, hx, hp⟩ := h
  exact ⟨x, hx, hq x hp⟩

theorem bind {m : Result α} {k : α → Result β} {P : α → Prop} {Q : β → Prop} (h : Returns m P)
    (hk : ∀ x, P x → Returns (k x) Q) : Returns (m >>= k) Q := by
  obtain ⟨x, rfl, hp⟩ := h
  exact hk x hp

/-- What returns in two parts returns in the first. -/
theorem of_bind {m : Result α} {k : α → Result β} {Q : β → Prop} (h : Returns (m >>= k) Q) :
    ∃ x, m = .ok x ∧ Returns (k x) Q := by
  cases m with
  | ok x => exact ⟨x, rfl, h⟩
  | error f =>
    obtain ⟨y, hy, -⟩ := h
    cases hy

theorem eq_ok {m : Result α} {x : α} (h : Returns m (fun y => y = x)) : m = .ok x := by
  obtain ⟨y, hy, rfl⟩ := h
  exact hy

end Returns

/-- `m` returns a value satisfying `P`, or stops at a fault satisfying `F`. -/
def Ends {α : Type} (F : Fault → Prop) (m : Result α) (P : α → Prop) : Prop :=
  match m with
  | .ok x => P x
  | .error f => F f

theorem Returns.ends {α : Type} {F : Fault → Prop} {m : Result α} {P : α → Prop} (h : Returns m P) : Ends F m P := by
  obtain ⟨x, rfl, hp⟩ := h
  exact hp

namespace Ends
variable {α β : Type} {F : Fault → Prop}

/-- Nothing is said of `m`. -/
theorem any (m : Result α) : Ends (fun _ => True) m (fun _ => True) := by
  cases m with
  | ok x => exact trivial
  | error f => exact trivial

theorem weaken {G : Fault → Prop} {m : Result α} {P : α → Prop} (h : Ends F m P) (hFG : ∀ f, F f → G f) :
    Ends G m P := by
  cases m with
  | ok x => exact h
  | error f => exact hFG f h

theorem returns {m : Result α} {P : α → Prop} (h : Ends F m P) (hF : ∀ f, ¬F f) : Returns m P := by
  cases m with
  | ok x => exact .ret h
  | error f => exact absurd h (hF f)

theorem mono {m : Result α} {P Q : α → Prop} (h : Ends F m P) (hq : ∀ x, P x → Q x) : Ends F m Q := by
  cases m with
  | ok x => exact hq x h
  | error f => exact h

theorem bind {m : Result α} {k : α → Result β} {P : α → Prop} {Q : β → Prop} (h : Ends F m P)
    (hk : ∀ x, P x → Ends F (k x) Q) : Ends F (m >>= k) Q := by
  cases m with
  | ok x => exact hk x h
  | error f => exact h

end Ends

/-- Where `m` returns, its value satisfies `P`. -/
abbrev Yields {α : Type} (m : Result α) (P : α → Prop) : Prop := Ends (fun _ => True) m P

theorem Returns.and_yields {α : Type} {m : Result α} {P Q : α → Prop} (h : Returns m P) (h' : Yields m Q) :
    Returns m (fun x => P x ∧ Q x) := by
  obtain ⟨x, rfl, hp⟩ := h
  exact .ret ⟨hp, h'⟩

section Binds
variable {α β : Type}

@[simp] theorem ok_bind (x : α) (k : α → Result β) : ((.ok x : Result α) >>= k) = k x := rfl

@[simp] theorem pure_eq_ok (x : α) : (pure x : Result α) = .ok x := rfl

end Binds

/-- Every element is mapped without a fault. -/
theorem mapM_eq_map {α β : Type} {f : α → Result β} {g : α → β} {xs : List α} (h : ∀ x ∈ xs, f x = .ok (g x)) :
    xs.mapM f = .ok (xs.map g) := by
  induction xs with
  | nil => rfl
  | cons x xs ih =>
    rw [List.mapM_cons, h x List.mem_cons_self, ok_bind, ih fun y hy => h y (List.mem_cons_of_mem _ hy)]
    rfl

/-! ## Arithmetic on `usize` -/

def usize_add (a b : Nat) : Result Nat :=
  if a + b ≤ usizeMax then .ok (a + b) else .error .overflow

def usize_sub (a b : Nat) : Result Nat :=
  if b ≤ a then .ok (a - b) else .error .underflow

def usize_mul (a b : Nat) : Result Nat :=
  if a * b ≤ usizeMax then .ok (a * b) else .error .overflow

/-- Addition on `u64`. -/
def u64_add (a b : Nat) : Result Nat :=
  if a + b < 2 ^ 64 then .ok (a + b) else .error .overflow

/-- Addition on an unsigned type of `w` bits. -/
def uint_add {w : Nat} (a b : BitVec w) : Result (BitVec w) :=
  if a.toNat + b.toNat < 2 ^ w then .ok (a + b) else .error .overflow

/-- Subtraction on an unsigned type of `w` bits. -/
def uint_sub {w : Nat} (a b : BitVec w) : Result (BitVec w) :=
  if b ≤ a then .ok (a - b) else .error .underflow

/-- `debug_assert!(c)` -/
def debug_assert (c : Bool) : Result Unit := if c then .ok () else .error .assertion

theorem usize_add_eq {a b : Nat} (h : a + b ≤ usizeMax) : usize_add a b = .ok (a + b) := if_pos h

theorem usize_sub_eq {a b : Nat} (h : b ≤ a) : usize_sub a b = .ok (a - b) := if_pos h

theorem usize_add_ok {a b n : Nat} (h : usize_add a b = .ok n) : n = a + b := by
  unfold usize_add at h
  split at h
  · exact (Except.ok.inj h).symm
  · cases h

theorem usize_sub_ok {a b n : Nat} (h : usize_sub a b = .ok n) : b ≤ a ∧ n = a - b := by
  unfold usize_sub at h
  split at h
  · exact ⟨‹_›, (Except.ok.inj h).symm⟩
  · cases h

theorem usize_add_yields (a b : Nat) : Yields (usize_add a b) (fun n => n = a + b) := by
  cases h : usize_add a b with
  | ok n => exact usize_add_ok h
  | error f => exact trivial

theorem usize_sub_yields (a b : Nat) : Yields (usize_sub a b) (fun n => b ≤ a ∧ n = a - b) := by
  cases h : usize_sub a b with
  | ok n => exact usize_sub_ok h
  | error f => exact trivial

theorem usize_mul_eq {a b : Nat} (h : a * b ≤ usizeMax) : usize_mul a b = .ok (a * b) := if_pos h

theorem debug_assert_eq {c : Bool} (h : c = true) : debug_assert c = .ok () := if_pos h

/-! ## Slices and arrays -/

section Access
variable {α : Type} {n : Nat}

/-- `xs[i]` -/
def index (xs : List α) (i : Nat) : Result α :=
  match xs[i]? with
  | some x => .ok x
  | none => .error .outOfBounds

/-- `&xs[lo..hi]` -/
def slice (xs : List α) (lo hi : Nat) : Result (List α) :=
  if lo ≤ hi ∧ hi ≤ xs.length then .ok ((xs.drop lo).take (hi - lo)) else .error .outOfBounds

/-- `xs[i] = x` -/
def store (xs : Vector α n) (i : Nat) (x : α) : Result (Vector α n) :=
  if h : i < n then .ok (xs.set i x) else .error .outOfBounds

/-- `xs[lo..hi].copy_from_slice(src)` -/
def copy_from_slice (xs : Vector α n) (lo hi : Nat) (src : List α) : Result (Vector α n) :=
  if lo ≤ hi ∧ hi ≤ n then
    if src.length = hi - lo then
      .ok (Vector.ofFn fun j => if h : lo ≤ j.val ∧ j.val - lo < src.length then src[j.val - lo] else xs[j])
    else .error .lengthMismatch
  else .error .outOfBounds

theorem index_eq {xs : List α} {i : Nat} (h : i < xs.length) : index xs i = .ok xs[i] := by
  simp [index, List.getElem?_eq_getElem h]

theorem slice_eq {xs : List α} {lo hi : Nat} (h₁ : lo ≤ hi) (h₂ : hi ≤ xs.length) :
    slice xs lo hi = .ok ((xs.drop lo).take (hi - lo)) := if_pos ⟨h₁, h₂⟩

theorem store_eq {xs : Vector α n} {i : Nat} (x : α) (h : i < n) : store xs i x = .ok (xs.set i x) :=
  dif_pos h

theorem store_lt {xs ys : Vector α n} {i : Nat} {x : α} (h : store xs i x = .ok ys) : i < n := by
  unfold store at h
  split at h
  · assumption
  · cases h

/-- A copy that fits replaces the bytes from `lo` on and keeps the rest. -/
theorem copy_from_slice_spec {xs : Vector α n} {lo hi : Nat} {src : List α} (h₁ : lo ≤ hi) (h₂ : hi ≤ n)
    (h₃ : src.length = hi - lo) :
    Returns (copy_from_slice xs lo hi src)
      (fun ys => ys.toList = xs.toList.take lo ++ src ++ xs.toList.drop hi) := by
  refine .of_eq (by rw [copy_from_slice, if_pos ⟨h₁, h₂⟩, if_pos h₃]) ?_
  refine List.ext_getElem (by simp; omega) fun j hj _ => ?_
  have hjn : j < n := by simpa using hj
  simp only [Vector.getElem_toList, Vector.getElem_ofFn, Fin.getElem_fin]
  rcases Nat.lt_or_ge j lo with h | h
  · rw [dif_neg (by omega), List.getElem_append_left (by simp; omega), List.getElem_append_left (by simp; omega)]
    simp
  · rcases Nat.lt_or_ge j hi with h' | h'
    · rw [dif_pos (by omega), List.getElem_append_left (by simp; omega), List.getElem_append_right (by simp; omega)]
      congr 1
      simp; omega
    · rw [dif_neg (by omega), List.getElem_append_right (by simp; omega)]
      simp only [List.getElem_drop, Vector.getElem_toList]
      congr 1
      simp; omega

/-- Nothing is written from `r` on. -/
theorem store_behind (xs : Vector α n) {i r : Nat} (x : α) (h : i < r) :
    Yields (store xs i x) (fun ys => ys.toList.drop r = xs.toList.drop r) := by
  unfold store
  split
  · show (xs.set i x).toList.drop r = xs.toList.drop r
    rw [Vector.toList_set, List.drop_set_of_lt h]
  · exact trivial

theorem copy_behind (xs : Vector α n) {lo hi r : Nat} (src : List α) (h : hi ≤ r) :
    Yields (copy_from_slice xs lo hi src) (fun ys => ys.toList.drop r = xs.toList.drop r) := by
  by_cases hbounds : lo ≤ hi ∧ hi ≤ n
  · by_cases hsrc : src.length = hi - lo
    · apply (copy_from_slice_spec hbounds.1 hbounds.2 hsrc).ends.mono
      intro ys hys
      have hfront : (xs.toList.take lo ++ src).length = hi := by
        simp
        omega
      rw [hys, List.drop_append, List.drop_of_length_le (hfront.trans_le h), List.nil_append, hfront, List.drop_drop,
        Nat.add_sub_cancel' h]
    · rw [copy_from_slice, if_pos hbounds, if_neg hsrc]
      exact trivial
  · rw [copy_from_slice, if_neg hbounds]
    exact trivial

/-- A copy over the whole array. -/
theorem copy_all_spec (xs : Vector α n) {src : List α} (h : src.length = n) :
    Returns (copy_from_slice xs 0 n src) (fun ys => ys.toList = src) := by
  refine (copy_from_slice_spec (Nat.zero_le n) (Nat.le_refl n) (by omega)).mono fun ys hys => ?_
  rwa [List.take_zero, List.nil_append, List.drop_of_length_le (Nat.le_of_eq xs.length_toList), List.append_nil] at hys

/-- `&xs[lo..hi]` of an array, as a slice to pass on. -/
def borrow (xs : Vector α n) (hn : n ≤ isizeMax) (lo hi : Nat) : Result (Slice α) :=
  if lo ≤ hi ∧ hi ≤ n then
    .ok { val := (xs.toList.drop lo).take (hi - lo), len_le := by simp; omega }
  else .error .outOfBounds

/-- The bytes of a prefix. -/
theorem borrow_take {xs : Vector α n} (hn : n ≤ isizeMax) {hi : Nat} (h : hi ≤ n) :
    Returns (borrow xs hn 0 hi) (fun s => s.val = xs.toList.take hi) :=
  .of_eq (if_pos ⟨Nat.zero_le hi, h⟩) (by simp)

end Access

/-! ## Loops -/

section Loops
variable {σ β : Type}

/-- `for i in lo..hi { s = body(i, s) }` -/
def forRange (lo hi : Nat) (body : Nat → σ → Result σ) (s : σ) : Result σ :=
  (List.range' lo (hi - lo)).foldlM (fun s i => body i s) s

theorem foldlM_range'_spec (I : Nat → σ → Prop) (body : Nat → σ → Result σ) (n : Nat) :
    ∀ (lo : Nat) (s : σ), (∀ i s, lo ≤ i → i < lo + n → I i s → Returns (body i s) (I (i + 1))) → I lo s →
      Returns ((List.range' lo n).foldlM (fun s i => body i s) s) (I (lo + n)) := by
  induction n with
  | zero => intro lo s _ h; exact .ret h
  | succ n ih =>
    intro lo s hbody h
    rw [List.range'_succ, List.foldlM_cons]
    refine (hbody lo s (by omega) (by omega) h).bind fun s' hs' => ?_
    rw [show lo + (n + 1) = lo + 1 + n by omega]
    exact ih (lo + 1) s' (fun i s hlo hhi => hbody i s (by omega) (by omega)) hs'

/-- The invariant rule of a counted loop. -/
theorem forRange_spec (I : Nat → σ → Prop) {lo hi : Nat} {body : Nat → σ → Result σ} {s : σ} (hle : lo ≤ hi)
    (h : I lo s) (hbody : ∀ i s, lo ≤ i → i < hi → I i s → Returns (body i s) (I (i + 1))) :
    Returns (forRange lo hi body s) (I hi) := by
  have h' := foldlM_range'_spec I body (hi - lo) lo s (fun i s h₁ h₂ => hbody i s h₁ (by omega)) h
  rwa [show lo + (hi - lo) = hi by omega] at h'

/-- A loop whose pass `i` updates entry `i` only. -/
theorem forRange_set {α : Type} {m n : Nat} {body : Nat → Vector α n → Result (Vector α n)} (hm : m ≤ n)
    (g : Nat → α → α) (xs : Vector α n)
    (hbody : ∀ i (hi : i < m) (ys : Vector α n), body i ys = .ok (ys.set i (g i ys[i]))) :
    forRange 0 m body xs = .ok (mapFirst m g xs) := by
  apply Returns.eq_ok
  refine forRange_spec (fun i ys => ys = mapFirst i g xs) (Nat.zero_le m) ?_ ?_
  · exact (mapFirst_zero g xs).symm
  · rintro i ys - hi rfl
    exact .of_eq (hbody i hi _) (mapFirst_succ i g xs (by omega)).symm

/-- How one pass through a loop body ends. -/
inductive Flow (σ β : Type) where
  | next (s : σ)
  | done (b : β)

/-- `P` of the state to go on with, or `Q` of the value that leaves the loop. -/
def Flow.Post (P : σ → Prop) (Q : β → Prop) : Flow σ β → Prop
  | .next s => P s
  | .done b => Q b

/-- `loop { .. }`, given up after `fuel` passes. -/
def loop (body : σ → Result (Flow σ β)) : Nat → σ → Result β
  | 0, _ => .error .diverges
  | fuel + 1, s => do
    match ← body s with
    | .next s => loop body fuel s
    | .done b => pure b

/-- The rule of a loop with a variant `μ` and an invariant `P`, whose body may
stop at faults in `F`. -/
theorem loop_ends {body : σ → Result (Flow σ β)} {F : Fault → Prop} (μ : σ → Nat) (P : σ → Prop) (Q : β → Prop)
    (hs : ∀ s, P s → Ends F (body s) (Flow.Post (fun s' => P s' ∧ μ s' < μ s) Q)) :
    ∀ (fuel : Nat) (s : σ), P s → μ s < fuel → Ends F (loop body fuel s) Q := by
  intro fuel
  induction fuel with
  | zero => intro s _ h; exact absurd h (Nat.not_lt_zero _)
  | succ fuel ih =>
    intro s hP hμ
    refine (hs s hP).bind fun r hr => ?_
    cases r with
    | done b => exact hr
    | next s' => exact ih s' hr.1 (by have := hr.2; omega)

theorem loop_spec {body : σ → Result (Flow σ β)} (μ : σ → Nat) (P : σ → Prop) (Q : β → Prop)
    (hs : ∀ s, P s → Returns (body s) (Flow.Post (fun s' => P s' ∧ μ s' < μ s) Q)) (fuel : Nat) (s : σ)
    (hP : P s) (hμ : μ s < fuel) : Returns (loop body fuel s) Q :=
  Ends.returns (loop_ends μ P Q (fun s hP => (hs s hP).ends) fuel s hP hμ) fun _ => not_false

/-- An invariant that every pass keeps, where it returns. -/
theorem foldlM_yields {ι : Type} {body : σ → ι → Result σ} {I : σ → Prop} {xs : List ι}
    (hbody : ∀ s, ∀ x ∈ xs, I s → Yields (body s x) I) {s : σ} (h : I s) : Yields (xs.foldlM body s) I := by
  induction xs generalizing s with
  | nil => exact h
  | cons x xs ih =>
    rw [List.foldlM_cons]
    apply (hbody s x List.mem_cons_self h).bind
    intro s' hs'
    exact ih (fun t y hy => hbody t y (List.mem_cons_of_mem _ hy)) hs'

theorem loop_yields {body : σ → Result (Flow σ β)} {P : σ → Prop} {Q : β → Prop}
    (hbody : ∀ s, P s → Yields (body s) (Flow.Post P Q)) (fuel : Nat) {s : σ} (h : P s) :
    Yields (loop body fuel s) Q := by
  induction fuel generalizing s with
  | zero => exact trivial
  | succ fuel ih =>
    apply (hbody s h).bind
    intro r hr
    cases r with
    | next s' => exact ih hr
    | done b => exact hr

end Loops

end HashLib.Checked
