import Sha3Kernel.HashLib.Observe
import Sha3Kernel.State
/-!
# What the sponge shows

The code of `absorb` and `finalize` with its events: every branch, every place
read or written, every range copied, and which permutation runs. Leaving the
events out gives the code back. The permutations are straight-line code over
fixed indices and count as one step each.
-/

namespace Sha3Kernel

open HashLib HashLib.Bits HashLib.Checked HashLib.Observe

/-! ## The code, with its events -/

/-- The permutations the hasher runs. -/
inductive Routine where
  | keccak_f1600
  | keccak_f1600_avx512
  | keccak_f1600_x8_avx512
  | keccak_f1600_x4_avx2
  deriving DecidableEq, Repr

/-- `permute`, showing the path it takes. -/
def permute_observed (p : Platform) (state : Lanes) (use_avx512 : Bool) : Observed Routine Lanes := do
  if p.std_x86_64 then
    if ← branch (use_avx512 && p.avx512f) then
      see (.call .keccak_f1600_avx512)
      pure (keccak_f1600_avx512 state)
    else
      see (.call .keccak_f1600)
      pure (keccak_f1600 state)
  else
    see (.call .keccak_f1600)
    pure (keccak_f1600 state)

def read_word_observed (block : List U8) (off : Nat) : Observed Routine U64 := do
  let b0 ← Observe.index block off
  let b1 ← Observe.index block (off + 1)
  let b2 ← Observe.index block (off + 2)
  let b3 ← Observe.index block (off + 3)
  let b4 ← Observe.index block (off + 4)
  let b5 ← Observe.index block (off + 5)
  let b6 ← Observe.index block (off + 6)
  let b7 ← Observe.index block (off + 7)
  pure (word_from b0 b1 b2 b3 b4 b5 b6 b7)

def xor_words_observed (words : Nat) (block : List U8) (state : Lanes) : Observed Routine Lanes :=
  Observe.forRange 0 words (fun i state => do
    let off := i * 8
    let word ← read_word_observed block off
    let lane ← Observe.index state.toList i
    Observe.store state i (lane ^^^ word)) state

def squeeze_observed (state : Lanes) : Observed Routine Sha3_512Hash :=
  Observe.forRange 0 8 (fun i hash => do
    let lane ← Observe.index state.toList i
    Observe.copy_from_slice hash (i * 8) ((i + 1) * 8) (to_le_bytes lane).toList) (Vector.replicate 64 0)

namespace Sha3_512State

def xor_block_into_state_observed (self : Sha3_512State) : Observed Routine Sha3_512State := do
  let words := self.rate / 8
  let state ← xor_words_observed words self.buffer.toList self.state
  pure { self with state }

def absorb_fill_observed (p : Platform) (self : Sha3_512State) (data : Slice U8) (use_avx512 : Bool) :
    Observed Routine (Sha3_512State × Nat) := do
  if ← branch (decide (0 < self.pos)) then
    let remaining ← lift (usize_sub self.rate self.pos)
    let to_copy := min remaining data.len
    let src ← Observe.slice data.val 0 to_copy
    let pos ← lift (usize_add self.pos to_copy)
    let buffer ← Observe.copy_from_slice self.buffer self.pos pos src
    let self := { self with buffer, pos }
    let offset ← lift (usize_add 0 to_copy)
    if ← branch (decide (self.pos = self.rate)) then
      let self ← self.xor_block_into_state_observed
      let state ← permute_observed p self.state use_avx512
      pure ({ self with state, pos := 0 }, offset)
    else
      pure (self, offset)
  else
    pure (self, 0)

def absorb_block_observed (p : Platform) (data : Slice U8) (use_avx512 : Bool) :
    Sha3_512State × Nat → Observed Routine (Flow (Sha3_512State × Nat) (Sha3_512State × Nat))
  | (self, offset) => do
    let block_end ← lift (usize_add offset self.rate)
    if ← branch (decide (block_end ≤ data.len)) then
      let block ← Observe.slice data.val offset block_end
      let words := self.rate / 8
      let state ← xor_words_observed words block self.state
      let state ← permute_observed p state use_avx512
      let offset ← lift (usize_add offset self.rate)
      pure (.next ({ self with state }, offset))
    else
      pure (.done (self, offset))

def absorb_tail_observed (self : Sha3_512State) (data : Slice U8) (offset : Nat) :
    Observed Routine Sha3_512State := do
  let tail ← lift (usize_sub data.len offset)
  if ← branch (decide (0 < tail)) then
    let src ← Observe.slice data.val offset data.len
    let buffer ← Observe.copy_from_slice self.buffer 0 tail src
    pure { self with buffer, pos := tail }
  else
    pure self

def absorb_observed (p : Platform) (self : Sha3_512State) (data : Slice U8) (use_avx512 : Bool) :
    Observed Routine Sha3_512State := do
  let (self, offset) ← self.absorb_fill_observed p data use_avx512
  let (self, offset) ← Observe.loop (absorb_block_observed p data use_avx512) (data.len + 1) (self, offset)
  self.absorb_tail_observed data offset

def finalize_observed (p : Platform) (self : Sha3_512State) (use_avx512 : Bool) :
    Observed Routine (Sha3_512State × Sha3_512Hash) := do
  let buffer ← Observe.forRange self.pos self.rate (fun i buffer => Observe.store buffer i 0) self.buffer
  let buffer ← Observe.store buffer self.pos SHA3_DOMAIN_BYTE
  let last ← lift (usize_sub self.rate 1)
  let byte ← Observe.index buffer.toList last
  let buffer ← Observe.store buffer last (byte ||| 0x80)
  let self := { self with buffer }
  let self ← self.xor_block_into_state_observed
  let state ← permute_observed p self.state use_avx512
  let self := { self with state }
  let hash ← squeeze_observed self.state
  pure (self, hash)

end Sha3_512State

/-! ## Leaving the events out -/

@[simp] theorem value_permute (p : Platform) (state : Lanes) (use_avx512 : Bool) :
    (permute_observed p state use_avx512).value = .ok (permute p state use_avx512) := by
  unfold permute_observed permute keccak_f1600_dispatch
  cases p.std_x86_64 with
  | false => rfl
  | true =>
    cases use_avx512 && p.avx512f with
    | false => rfl
    | true => rfl

@[simp] theorem value_read_word (block : List U8) (off : Nat) :
    (read_word_observed block off).value = read_word block off := by
  simp only [read_word_observed, read_word, value_bind, value_index, value_pure, pure_eq_ok]

@[simp] theorem value_xor_words (words : Nat) (block : List U8) (state : Lanes) :
    (xor_words_observed words block state).value = xor_words words block state := by
  simp only [xor_words_observed, xor_words, value_forRange, value_bind, value_read_word, value_index, value_store]

@[simp] theorem value_squeeze (state : Lanes) : (squeeze_observed state).value = squeeze state := by
  simp only [squeeze_observed, squeeze, value_forRange, value_bind, value_index, value_copy_from_slice]

namespace Sha3_512State

@[simp] theorem value_xor_block_into_state (self : Sha3_512State) :
    self.xor_block_into_state_observed.value = self.xor_block_into_state := by
  simp only [xor_block_into_state_observed, xor_block_into_state, value_bind, value_xor_words, value_pure, pure_eq_ok]

@[simp] theorem value_absorb_fill (p : Platform) (self : Sha3_512State) (data : Slice U8) (use_avx512 : Bool) :
    (self.absorb_fill_observed p data use_avx512).value = self.absorb_fill p data use_avx512 := by
  unfold absorb_fill_observed absorb_fill
  simp only [value_bind, value_branch, ok_bind, value_ite, decide_eq_true_eq, value_lift, value_slice,
    value_copy_from_slice, value_xor_block_into_state, value_permute, value_pure, pure_eq_ok]

@[simp] theorem value_absorb_block (p : Platform) (data : Slice U8) (use_avx512 : Bool) (r : Sha3_512State × Nat) :
    (absorb_block_observed p data use_avx512 r).value = absorb_block p data use_avx512 r := by
  obtain ⟨self, offset⟩ := r
  unfold absorb_block_observed absorb_block
  simp only [value_bind, value_branch, ok_bind, value_ite, decide_eq_true_eq, value_lift, value_slice,
    value_xor_words, value_permute, value_pure, pure_eq_ok]

@[simp] theorem value_absorb_tail (self : Sha3_512State) (data : Slice U8) (offset : Nat) :
    (self.absorb_tail_observed data offset).value = self.absorb_tail data offset := by
  unfold absorb_tail_observed absorb_tail
  simp only [value_bind, value_branch, ok_bind, value_ite, decide_eq_true_eq, value_lift, value_slice,
    value_copy_from_slice, value_pure, pure_eq_ok]

@[simp] theorem value_absorb (p : Platform) (self : Sha3_512State) (data : Slice U8) (use_avx512 : Bool) :
    (self.absorb_observed p data use_avx512).value = self.absorb p data use_avx512 := by
  unfold absorb_observed absorb
  simp only [value_bind, value_absorb_fill, value_loop, value_absorb_block, value_absorb_tail]

@[simp] theorem value_finalize (p : Platform) (self : Sha3_512State) (use_avx512 : Bool) :
    (self.finalize_observed p use_avx512).value = self.finalize p use_avx512 := by
  unfold finalize_observed finalize
  simp only [value_bind, ok_bind, value_forRange, value_store, value_lift, value_index, value_xor_block_into_state,
    value_permute, value_squeeze, value_pure, pure_eq_ok]

end Sha3_512State

/-! ## Two sponges show the same -/

/-- What an onlooker may know of a sponge. -/
structure SameShape (s s' : Sha3_512State) : Prop where
  pos : s.pos = s'.pos
  rate : s.rate = s'.rate

theorem permute_same_view (p : Platform) (use_avx512 : Bool) (state state' : Lanes) :
    SameView (fun _ _ => True) (permute_observed p state use_avx512) (permute_observed p state' use_avx512) := by
  unfold permute_observed
  split
  · apply SameView.bind_same
    intro avx512
    split
    · exact .bind_same _ fun _ => .ret trivial
    · exact .bind_same _ fun _ => .ret trivial
  · exact .bind_same _ fun _ => .ret trivial

theorem read_word_same_view {block block' : List U8} (h : block.length = block'.length) (off : Nat) :
    SameView (fun _ _ => True) (read_word_observed block off) (read_word_observed block' off) := by
  have hindex : ∀ i, SameView (fun _ _ => True) (Observe.index block i : Observed Routine U8)
      (Observe.index block' i) := fun i => .index h i
  unfold read_word_observed
  refine (hindex _).bind fun _ _ _ => (hindex _).bind fun _ _ _ => (hindex _).bind fun _ _ _ => ?_
  refine (hindex _).bind fun _ _ _ => (hindex _).bind fun _ _ _ => (hindex _).bind fun _ _ _ => ?_
  exact (hindex _).bind fun _ _ _ => (hindex _).bind fun _ _ _ => .ret trivial

theorem xor_words_same_view (words : Nat) {block block' : List U8} (h : block.length = block'.length)
    (state state' : Lanes) :
    SameView (fun _ _ => True) (xor_words_observed words block state) (xor_words_observed words block' state') := by
  refine .forRange 0 words (fun i state state' _ => ?_) trivial
  refine (read_word_same_view h _).bind fun word word' _ => ?_
  refine (SameView.index (by simp) i).bind fun lane lane' _ => ?_
  exact .store state state' i _ _

theorem squeeze_same_view (state state' : Lanes) :
    SameView (fun _ _ => True) (squeeze_observed state) (squeeze_observed state') := by
  refine .forRange 0 8 (fun i hash hash' _ => ?_) trivial
  refine (SameView.index (by simp) i).bind fun lane lane' _ => ?_
  exact .copy_from_slice hash hash' _ _ (by simp)

namespace Sha3_512State
variable (p : Platform) (use_avx512 : Bool) {self self' : Sha3_512State} {data data' : Slice U8}

theorem xor_block_into_state_same_view (h : SameShape self self') :
    SameView SameShape self.xor_block_into_state_observed self'.xor_block_into_state_observed := by
  unfold xor_block_into_state_observed
  rw [h.rate]
  exact (xor_words_same_view _ (by simp) _ _).bind fun state state' _ => .ret ⟨h.pos, rfl⟩

/-- The data goes in as far as its length and `pos` say. -/
theorem absorb_fill_same_view (h : SameShape self self') (hlen : data.len = data'.len) :
    SameView (fun r r' => SameShape r.1 r'.1 ∧ r.2 = r'.2) (self.absorb_fill_observed p data use_avx512)
      (self'.absorb_fill_observed p data' use_avx512) := by
  unfold absorb_fill_observed
  rw [h.pos, h.rate, hlen]
  apply SameView.bind_same
  intro waiting
  split
  · apply SameView.bind_same
    intro remaining
    refine (SameView.slice hlen _ _).bind fun src src' hsrc => ?_
    apply SameView.bind_same
    intro pos
    refine (SameView.copy_from_slice _ _ _ _ hsrc).bind fun buffer buffer' _ => ?_
    apply SameView.bind_same
    intro offset
    apply SameView.bind_same
    intro full
    split
    · refine SameView.bind (xor_block_into_state_same_view ⟨rfl, rfl⟩) fun s s' hs => ?_
      exact (permute_same_view p use_avx512 _ _).bind fun _ _ _ => .ret ⟨⟨rfl, hs.rate⟩, rfl⟩
    · exact .ret ⟨⟨rfl, rfl⟩, rfl⟩
  · exact .ret ⟨h, rfl⟩

theorem absorb_block_same_view (hlen : data.len = data'.len) (r r' : Sha3_512State × Nat)
    (h : SameShape r.1 r'.1 ∧ r.2 = r'.2) :
    SameView (SameView.FlowRel (fun r r' => SameShape r.1 r'.1 ∧ r.2 = r'.2)
        (fun r r' => SameShape r.1 r'.1 ∧ r.2 = r'.2))
      (absorb_block_observed p data use_avx512 r) (absorb_block_observed p data' use_avx512 r') := by
  obtain ⟨self, offset⟩ := r
  obtain ⟨self', offset'⟩ := r'
  obtain ⟨h, rfl⟩ := h
  unfold absorb_block_observed
  dsimp only at h ⊢
  rw [h.rate, hlen]
  apply SameView.bind_same
  intro block_end
  apply SameView.bind_same
  intro more
  split
  · refine (SameView.slice hlen _ _).bind fun block block' hblock => ?_
    refine (xor_words_same_view _ hblock _ _).bind fun state state' _ => ?_
    refine (permute_same_view p use_avx512 _ _).bind fun state state' _ => ?_
    apply SameView.bind_same
    intro offset
    exact .ret ⟨⟨h.pos, rfl⟩, rfl⟩
  · exact .ret ⟨h, rfl⟩

theorem absorb_tail_same_view (h : SameShape self self') (hlen : data.len = data'.len) (offset : Nat) :
    SameView SameShape (self.absorb_tail_observed data offset) (self'.absorb_tail_observed data' offset) := by
  unfold absorb_tail_observed
  rw [hlen]
  apply SameView.bind_same
  intro tail
  apply SameView.bind_same
  intro more
  split
  · refine (SameView.slice hlen _ _).bind fun src src' hsrc => ?_
    exact (SameView.copy_from_slice _ _ _ _ hsrc).bind fun _ _ _ => .ret ⟨rfl, h.rate⟩
  · exact .ret h

/-- What `absorb` shows is fixed by `pos`, `rate` and the length of the data, in
any state, also where it panics. -/
theorem absorb_same_view (h : SameShape self self') (hlen : data.len = data'.len) :
    SameView SameShape (self.absorb_observed p data use_avx512) (self'.absorb_observed p data' use_avx512) := by
  unfold absorb_observed
  rw [hlen]
  refine (absorb_fill_same_view p use_avx512 h hlen).bind fun r r' hr => ?_
  refine (SameView.loop (absorb_block_same_view p use_avx512 hlen) _ hr).bind ?_
  rintro ⟨s, offset⟩ ⟨s', offset'⟩ ⟨hs, rfl⟩
  exact absorb_tail_same_view hs hlen offset

theorem finalize_same_view (h : SameShape self self') :
    SameView (fun r r' => SameShape r.1 r'.1) (self.finalize_observed p use_avx512)
      (self'.finalize_observed p use_avx512) := by
  unfold finalize_observed
  rw [h.pos, h.rate]
  refine (SameView.forRange (R := fun _ _ => True) _ _ (fun i b b' _ => .store b b' i _ _) trivial).bind
    fun buffer buffer' _ => ?_
  refine (SameView.store _ _ _ _ _).bind fun buffer buffer' _ => ?_
  apply SameView.bind_same
  intro last
  refine (SameView.index (by simp) _).bind fun byte byte' _ => ?_
  refine (SameView.store _ _ _ _ _).bind fun buffer buffer' _ => ?_
  dsimp only
  refine SameView.bind (xor_block_into_state_same_view ⟨rfl, rfl⟩) fun s s' hs => ?_
  refine (permute_same_view p use_avx512 _ _).bind fun state state' _ => ?_
  exact (squeeze_same_view _ _).bind fun _ _ _ => .ret ⟨hs.pos, hs.rate⟩

end Sha3_512State

end Sha3Kernel
