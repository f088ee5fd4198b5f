import Mathlib
/-!
# Feeding a step function in fixed-size blocks

A hash consumes its input `r` elements at a time. `run` steps an accumulator
over the first `n` blocks of a list; `Buffered` is the state of a consumer that
is handed its input in pieces of any length, and `feed` hands it one piece.
`feed_append` is why the split of the input does not matter.
-/

namespace HashLib.Blocks

variable {σ τ α β : Type}

/-- `step` over the first `n` blocks of `xs`, `r` elements each. -/
def run (step : σ → List α → σ) (r : Nat) : Nat → σ → List α → σ
  | 0, s, _ => s
  | n + 1, s, xs => run step r n (step s (xs.take r)) (xs.drop r)

section Run
variable (step : σ → List α → σ) (r : Nat)

@[simp] theorem run_zero (s : σ) (xs : List α) : run step r 0 s xs = s := rfl

@[simp] theorem run_succ (n : Nat) (s : σ) (xs : List α) :
    run step r (n + 1) s xs = run step r n (step s (xs.take r)) (xs.drop r) := rfl

theorem run_add (m n : Nat) (s : σ) (xs : List α) :
    run step r (m + n) s xs = run step r n (run step r m s xs) (xs.drop (m * r)) := by
  induction m generalizing s xs with
  | zero => simp
  | succ m ih =>
    rw [show m + 1 + n = m + n + 1 by omega, run_succ, ih, run_succ, List.drop_drop]
    congr 2
    rw [Nat.succ_mul, Nat.add_comm]

/-- Whole blocks at the front are not affected by what follows them. -/
theorem run_append (n : Nat) (s : σ) (xs ys : List α) (h : n * r ≤ xs.length) :
    run step r n s (xs ++ ys) = run step r n s xs := by
  induction n generalizing s xs with
  | zero => rfl
  | succ n ih =>
    have hr : r ≤ xs.length := by rw [Nat.succ_mul] at h; omega
    rw [run_succ, run_succ, List.take_append_of_le_length hr, List.drop_append_of_le_length hr]
    exact ih _ _ (by rw [List.length_drop, Nat.succ_mul] at *; omega)

theorem length_flatten_of {r : Nat} {blocks : List (List α)} (h : ∀ block ∈ blocks, block.length = r) :
    blocks.flatten.length = blocks.length * r := by
  rw [List.length_flatten, List.map_eq_replicate_iff.2 h, List.sum_replicate_nat]

/-- A run over blocks joined together steps over each of them. -/
theorem run_flatten {blocks : List (List α)} (h : ∀ block ∈ blocks, block.length = r) (s : σ) (rest : List α) :
    run step r blocks.length s (blocks.flatten ++ rest) = blocks.foldl step s := by
  induction blocks generalizing s with
  | nil => rfl
  | cons block blocks ih =>
    have hblock : block.length = r := h block List.mem_cons_self
    rw [List.length_cons, run_succ, List.flatten_cons, List.append_assoc, List.take_left' hblock,
      List.drop_left' hblock, List.foldl_cons]
    exact ih (fun b hb => h b (List.mem_cons_of_mem _ hb)) _

/-- A simulation of one block step carries over to a run: `φ` maps the states
and `f` the blocks, `k` elements for each one. -/
theorem run_sim {step' : τ → List β → τ} {r' : Nat} (φ : σ → τ) (f : List α → List β)
    (htake : ∀ xs, (f xs).take r' = f (xs.take r)) (hdrop : ∀ xs, (f xs).drop r' = f (xs.drop r))
    (hstep : ∀ s b, b.length = r → step' (φ s) (f b) = φ (step s b)) (n : Nat) (s : σ) (xs : List α)
    (h : n * r ≤ xs.length) : run step' r' n (φ s) (f xs) = φ (run step r n s xs) := by
  induction n generalizing s xs with
  | zero => rfl
  | succ n ih =>
    rw [Nat.succ_mul] at h
    rw [run_succ, run_succ, htake, hdrop, hstep s _ (by rw [List.length_take]; omega)]
    exact ih _ _ (by rw [List.length_drop]; omega)

/-- A run over `n` blocks sees those only. -/
theorem run_take (n : Nat) (s : σ) (xs : List α) (h : n * r ≤ xs.length) :
    run step r n s (xs.take (n * r)) = run step r n s xs := by
  have hlen : (xs.take (n * r)).length = n * r := by rw [List.length_take, Nat.min_eq_left h]
  have happend := run_append step r n s (xs.take (n * r)) (xs.drop (n * r)) (Nat.le_of_eq hlen.symm)
  rw [List.take_append_drop] at happend
  exact happend.symm

/-- Blocks that have the same effect one by one have it in a run. -/
theorem run_congr {n : Nat} {xs ys : List α}
    (h : ∀ j, j < n → ∀ s, step s ((xs.drop (j * r)).take r) = step s ((ys.drop (j * r)).take r)) (s : σ) :
    run step r n s xs = run step r n s ys := by
  induction n generalizing s xs ys with
  | zero => rfl
  | succ n ih =>
    have hfirst := h 0 (Nat.succ_pos n) s
    rw [Nat.zero_mul, List.drop_zero, List.drop_zero] at hfirst
    rw [run_succ, run_succ, hfirst]
    apply ih
    intro j hj t
    have hnext := h (j + 1) (Nat.succ_lt_succ hj) t
    rwa [Nat.succ_mul, Nat.add_comm, ← List.drop_drop, ← List.drop_drop] at hnext

variable {step}

/-- Steps that merge no two states make runs that merge none. -/
theorem run_injective (hstep : ∀ block, Function.Injective (step · block)) (n : Nat) (xs : List α) :
    Function.Injective (fun s => run step r n s xs) := by
  induction n generalizing xs with
  | zero => exact Function.injective_id
  | succ n ih =>
    intro s t h
    exact hstep _ (ih _ h)

/-- Then two runs over inputs that differ in block `j` at most end alike exactly
when that block has one effect in both. -/
theorem run_eq_iff (hstep : ∀ block, Function.Injective (step · block)) {n j : Nat} (hj : j < n) (s : σ)
    {xs ys : List α} (hxs : n * r ≤ xs.length) (hys : n * r ≤ ys.length) (hfront : xs.take (j * r) = ys.take (j * r))
    (hback : xs.drop ((j + 1) * r) = ys.drop ((j + 1) * r)) :
    run step r n s xs = run step r n s ys ↔
      step (run step r j s xs) ((xs.drop (j * r)).take r) = step (run step r j s xs) ((ys.drop (j * r)).take r) := by
  obtain ⟨k, rfl⟩ : ∃ k, n = j + (k + 1) := ⟨n - (j + 1), by omega⟩
  have hle : j * r ≤ (j + (k + 1)) * r := Nat.mul_le_mul_right r (Nat.le_add_right j (k + 1))
  have hsame : run step r j s ys = run step r j s xs := by
    rw [← run_take step r j s xs (hle.trans hxs), ← run_take step r j s ys (hle.trans hys), hfront]
  rw [run_add step r j (k + 1) s xs, run_add step r j (k + 1) s ys, hsame, run_succ, run_succ, List.drop_drop,
    List.drop_drop, ← Nat.succ_mul, hback]
  exact (run_injective r hstep k _).eq_iff

end Run

/-- The last marked element splits a list in one way, so a padding that starts with a
mark can be taken off. -/
theorem append_marked_inj {mark : α → Bool} {xs ys as bs : List α} {a b : α} (ha : mark a = true) (hb : mark b = true)
    (has : ∀ x ∈ as, mark x = false) (hbs : ∀ x ∈ bs, mark x = false) (h : xs ++ a :: as = ys ++ b :: bs) :
    xs = ys := by
  rcases List.append_eq_append_iff.1 h with ⟨zs, hys, hpad⟩ | ⟨zs, hxs, hpad⟩
  · cases zs with
    | nil => rw [hys, List.append_nil]
    | cons z zs =>
      have hmem : b ∈ as := by simp [(List.cons.inj hpad).2]
      exact absurd ((has b hmem).symm.trans hb) (by decide)
  · cases zs with
    | nil => rw [hxs, List.append_nil]
    | cons z zs =>
      have hmem : a ∈ bs := by simp [(List.cons.inj hpad).2]
      exact absurd ((hbs a hmem).symm.trans ha) (by decide)

/-! ## A buffering consumer -/

/-- What a block consumer has seen: the accumulator over the whole blocks and
the elements of the block that is still short. -/
@[ext] structure Buffered (σ α : Type) (r : Nat) where
  acc : σ
  tail : List α
  tail_lt : tail.length < r

namespace Buffered
variable {r : Nat} (step : σ → List α → σ)

/-- Hand the consumer the elements `xs`. -/
def feed (b : Buffered σ α r) (xs : List α) : Buffered σ α r where
  acc := run step r ((b.tail ++ xs).length / r) b.acc (b.tail ++ xs)
  tail := (b.tail ++ xs).drop ((b.tail ++ xs).length / r * r)
  tail_lt := by
    have hr : 0 < r := by have := b.tail_lt; omega
    rw [List.length_drop, Nat.mul_comm, ← Nat.mod_eq_sub]
    exact Nat.mod_lt _ hr

/-- Handing over `xs` and then `ys` is handing over `xs ++ ys`. -/
theorem feed_append (b : Buffered σ α r) (xs ys : List α) :
    (b.feed step xs).feed step ys = b.feed step (xs ++ ys) := by
  have hr : 0 < r := by have := b.tail_lt; omega
  generalize hA : b.tail ++ xs = A
  have hn : A.length / r * r ≤ A.length := Nat.div_mul_le_self _ _
  have hB : A.drop (A.length / r * r) ++ ys = (A ++ ys).drop (A.length / r * r) :=
    (List.drop_append_of_le_length hn).symm
  have hlen : (A ++ ys).length / r = A.length / r + ((A ++ ys).drop (A.length / r * r)).length / r := by
    have hle : A.length / r * r ≤ (A ++ ys).length := by rw [List.length_append]; omega
    rw [List.length_drop, Nat.add_comm, ← Nat.add_mul_div_right _ _ hr, Nat.sub_add_cancel hle]
  have key : b.tail ++ (xs ++ ys) = A ++ ys := by rw [← hA, List.append_assoc]
  ext1
  · simp only [feed, key, hA, hB]
    conv_rhs => rw [hlen, run_add, run_append step r _ _ _ _ hn]
  · simp only [feed, key, hA, hB]
    conv_rhs => rw [hlen]
    rw [List.drop_drop, ← Nat.add_mul]

/-- A consumer steps over the blocks of what it holds and is handed, and keeps
the rest. -/
theorem feed_of_blocks (b : Buffered σ α r) {xs rest : List α} {blocks : List (List α)}
    (hblocks : ∀ block ∈ blocks, block.length = r) (hrest : rest.length < r)
    (h : blocks.flatten ++ rest = b.tail ++ xs) : b.feed step xs = ⟨blocks.foldl step b.acc, rest, hrest⟩ := by
  have hlen := length_flatten_of hblocks
  have hcount : (blocks.flatten ++ rest).length / r = blocks.length := by
    rw [List.length_append, hlen, Nat.mul_comm, Nat.mul_add_div (by omega), Nat.div_eq_of_lt hrest, Nat.add_zero]
  ext1
  · simp only [feed, ← h, hcount]
    exact run_flatten step r hblocks b.acc rest
  · simp only [feed, ← h, hcount]
    exact List.drop_left' hlen

@[simp] theorem feed_nil (b : Buffered σ α r) : b.feed step [] = b := by
  have hblocks : ∀ block ∈ ([] : List (List α)), block.length = r := nofun
  exact feed_of_blocks step b hblocks b.tail_lt (List.append_nil _).symm

/-- What does not fill the block waits. -/
theorem feed_short (b : Buffered σ α r) {xs : List α} (h : (b.tail ++ xs).length < r) :
    b.feed step xs = ⟨b.acc, b.tail ++ xs, h⟩ :=
  feed_of_blocks step b (List.forall_mem_nil _) h rfl

/-- What fills the block exactly leaves nothing to wait. -/
theorem feed_full (b : Buffered σ α r) {xs : List α} (h : (b.tail ++ xs).length = r) :
    b.feed step xs = ⟨step b.acc (b.tail ++ xs), [], by have := b.tail_lt; rw [List.length_nil]; omega⟩ := by
  refine feed_of_blocks step b (List.forall_mem_singleton.2 h) _ ?_
  rw [List.flatten_singleton, List.append_nil]

/-- Nothing waits behind whole blocks. -/
theorem feed_tail_of_dvd (b : Buffered σ α r) {xs : List α} (h : r ∣ (b.tail ++ xs).length) :
    (b.feed step xs).tail = [] := by
  simp only [feed, Nat.div_mul_cancel h, List.drop_length]

end Buffered

/-! ## What no block reaches -/

section Hidden
variable {r : Nat} {step : σ → List α → σ} {κ : Type} {hidden : σ → κ}

/-- A step that brings a block to one part of the state and leaves the rest,
`hidden`, to a rearrangement that loses nothing: states that some blocks step to
one state agree in the rest, and if they do, every block has its counterpart. -/
structure Hides (step : σ → List α → σ) (hidden : σ → κ) (r : Nat) : Prop where
  block_eq : ∀ {s x y}, x.length = r → y.length = r → step s x = step s y → x = y
  hidden_eq : ∀ {s t x y}, step s x = step t y → hidden s = hidden t
  counterpart : ∀ {s t x}, hidden s = hidden t → x.length = r → ∃ y, y.length = r ∧ step s x = step t y

/-- The whole blocks of a stream. -/
def whole (r : Nat) (xs : List α) : List α := xs.take (xs.length / r * r)

theorem length_whole (xs : List α) : (whole r xs).length = xs.length / r * r := by
  rw [whole, List.length_take, Nat.min_eq_left (Nat.div_mul_le_self _ _)]

/-- The whole blocks fix the accumulator. -/
theorem Buffered.feed_acc_whole (b : Buffered σ α r) (xs : List α) :
    (b.feed step xs).acc = run step r ((whole r (b.tail ++ xs)).length / r) b.acc (whole r (b.tail ++ xs)) := by
  have hr := Nat.zero_lt_of_lt b.tail_lt
  rw [length_whole, Nat.mul_div_cancel _ hr]
  exact (run_take step r _ _ _ (Nat.div_mul_le_self _ _)).symm

/-- Where a step over the padded rest of two streams ends alike, the hidden part
was the same before it, and the streams had different whole blocks unless they are
one. -/
theorem Hides.hidden_of_last_eq (h : Hides step hidden r) {last : List α → List α}
    (hlen : ∀ xs : List α, xs.length < r → (last xs).length = r)
    (hlast : ∀ xs ys : List α, xs.length < r → ys.length < r → last xs = last ys → xs = ys) {b : Buffered σ α r}
    {xs ys : List α} (heq : step (b.feed step xs).acc (last (b.feed step xs).tail) =
      step (b.feed step ys).acc (last (b.feed step ys).tail)) :
    hidden (b.feed step xs).acc = hidden (b.feed step ys).acc ∧
      (xs ≠ ys → whole r (b.tail ++ xs) ≠ whole r (b.tail ++ ys)) := by
  refine ⟨h.hidden_eq heq, fun hne hwhole => hne ?_⟩
  have hacc : (b.feed step xs).acc = (b.feed step ys).acc := by
    rw [Buffered.feed_acc_whole, Buffered.feed_acc_whole, hwhole]
  -- from one state, so the last blocks are one
  have hx := (b.feed step xs).tail_lt
  have hy := (b.feed step ys).tail_lt
  rw [hacc] at heq
  have htail := hlast _ _ hx hy (h.block_eq (hlen _ hx) (hlen _ hy) heq)
  have hstream : b.tail ++ xs = b.tail ++ ys := by
    rw [← List.take_append_drop ((b.tail ++ xs).length / r * r) (b.tail ++ xs),
      ← List.take_append_drop ((b.tail ++ ys).length / r * r) (b.tail ++ ys)]
    exact congrArg₂ (· ++ ·) hwhole htail
  exact List.append_cancel_left hstream

/-- Two streams of whole blocks with one hidden part go on to one consumer, with
any block behind the first and its counterpart behind the second. -/
theorem Hides.feed_eq_of_hidden (h : Hides step hidden r) {b : Buffered σ α r} {xs ys : List α}
    (hx : (b.feed step xs).tail = []) (hy : (b.feed step ys).tail = [])
    (heq : hidden (b.feed step xs).acc = hidden (b.feed step ys).acc) {x : List α} (hlen : x.length = r) :
    ∃ y, y.length = r ∧ b.feed step (xs ++ x) = b.feed step (ys ++ y) := by
  obtain ⟨y, hylen, hstep⟩ := h.counterpart heq hlen
  refine ⟨y, hylen, ?_⟩
  have hfullx : ((b.feed step xs).tail ++ x).length = r := by rw [hx, List.nil_append, hlen]
  have hfully : ((b.feed step ys).tail ++ y).length = r := by rw [hy, List.nil_append, hylen]
  rw [← Buffered.feed_append, ← Buffered.feed_append, Buffered.feed_full step _ hfullx,
    Buffered.feed_full step _ hfully, Buffered.mk.injEq]
  rw [hx, hy, List.nil_append, List.nil_append]
  exact ⟨hstep, rfl⟩

end Hidden

end HashLib.Blocks
