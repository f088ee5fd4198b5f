import Sha3Kernel.AbstractHasher
import Sha3Kernel.ObservedState
/-!
# What runs of calls show

Every public call with its events. Two runs whose calls agree in kind, lengths,
addresses and configuration show the same, whatever bytes they hash: no branch,
no index and no choice of a permutation depends on a byte.
-/

namespace Sha3Kernel

open HashLib HashLib.Bits HashLib.Checked HashLib.Observe

/-! ## Batches, with their events -/

def pad_message_observed (msg : Slice U8) : Observed Routine (List U8) := do
  let rate := SHA3_512_RATE
  let full_blocks := msg.len / rate
  let total_len ← lift (usize_mul (full_blocks + 1) rate)
  let buf ← Observe.copy_from_slice (Vector.replicate total_len 0) 0 msg.len msg.val
  let buf ← Observe.store buf msg.len SHA3_DOMAIN_BYTE
  let last ← lift (usize_sub total_len 1)
  let byte ← Observe.index buf.toList last
  let buf ← Observe.store buf last (byte ||| 0x80)
  pure buf.toList

section Batch
variable {lanes : Nat}

def xor_blocks_observed (padded : List (List U8)) (num_blocks : List Nat) (block_idx : Nat)
    (states : Vector Lanes lanes) : Observed Routine (Vector Lanes lanes) :=
  Observe.forRange 0 num_blocks.length (fun i states => do
    let n ← Observe.index num_blocks i
    if ← branch (decide (block_idx < n)) then
      let start ← lift (usize_mul block_idx SHA3_512_RATE)
      let block_end ← lift (usize_add start SHA3_512_RATE)
      let message ← Observe.index padded i
      let block ← Observe.slice message start block_end
      let state ← Observe.index states.toList i
      let state ← xor_words_observed (SHA3_512_RATE / 8) block state
      Observe.store states i state
    else
      pure states) states

def take_digests_observed {messages : Nat} (num_blocks : List Nat) (block_idx : Nat) (states : Vector Lanes lanes)
    (results : Vector Sha3_512Hash messages) : Observed Routine (Vector Sha3_512Hash messages) :=
  Observe.forRange 0 messages (fun i results => do
    let n ← Observe.index num_blocks i
    let last ← lift (usize_sub n 1)
    if ← branch (decide (block_idx = last)) then
      let state ← Observe.index states.toList i
      let digest ← squeeze_observed state
      Observe.store results i digest
    else
      pure results) results

/-- The block loop of a batch. -/
def batch_rounds_observed {messages : Nat} (routine : Routine) (permute_all : Vector Lanes lanes → Vector Lanes lanes)
    (padded : List (List U8)) (num_blocks : List Nat) (max_blocks : Nat) (states : Vector Lanes lanes)
    (results : Vector Sha3_512Hash messages) : Observed Routine (Vector Lanes lanes × Vector Sha3_512Hash messages) :=
  Observe.forRange 0 max_blocks (fun block_idx (states, results) => do
    let states ← xor_blocks_observed padded num_blocks block_idx states
    see (.call routine)
    let states := permute_all states
    let results ← take_digests_observed num_blocks block_idx states results
    pure (states, results)) (states, results)

def hash_batch_observed (routine : Routine) (permute_all : Vector Lanes lanes → Vector Lanes lanes)
    (chunk : List (Slice U8)) : Observed Routine (List Sha3_512Hash) := do
  lift (debug_assert (decide (chunk.length ≤ lanes)))
  let padded ← Observe.mapM pad_message_observed chunk
  let num_blocks := padded.map fun p => p.length / SHA3_512_RATE
  let max_blocks := num_blocks.max?.getD 0
  let states : Vector Lanes lanes := Vector.replicate lanes (Vector.replicate 25 0)
  let results : Vector Sha3_512Hash chunk.length := Vector.replicate chunk.length (Vector.replicate 64 0)
  let r ← batch_rounds_observed routine permute_all padded num_blocks max_blocks states results
  pure r.2.toList

end Batch

/-! ## Calls, with their events -/

namespace Sha3_512Kernel
variable (p : Platform)

def hash_observed (self : Sha3_512Kernel) (data : Slice U8) : Observed Routine (Sha3_512Kernel × Sha3_512Hash) := do
  let state := self.state.reset
  let state ← state.absorb_observed p data self.config.use_avx512
  let (state, hash) ← state.finalize_observed p self.config.use_avx512
  pure ({ self with state }, hash)

theorem le_isizeMax {size : Nat} (h : ¬(size = 0 ∨ size > MAX_HASH_SIZE)) : size ≤ isizeMax := by
  simp only [MAX_HASH_SIZE, isizeMax] at *
  omega

def hash_memory_region_observed (memory : Memory) (self : Sha3_512Kernel) (base_address : U64) (size : Nat) :
    Observed Routine (Sha3_512Kernel × Sha3_512Hash) := do
  see (.branch (decide (size = 0 ∨ size > MAX_HASH_SIZE)))
  if h : size = 0 ∨ size > MAX_HASH_SIZE then pure (self, Vector.replicate 64 0)
  else
    let memory_slice := from_raw_parts memory base_address size (le_isizeMax h)
    self.hash_observed p memory_slice

/-- The filter is asked about a region when its turn comes. -/
def hash_memory_regions_observed (memory : Memory) :
    Sha3_512Kernel → List MemoryRegion → Observed Routine (Sha3_512Kernel × List Sha3_512Hash)
  | self, [] => pure (self, [])
  | self, region :: regions => do
    if ← branch (eligible region) then
      let (self, hash) ← self.hash_memory_region_observed p memory region.base_address region.size
      let (self, hashes) ← hash_memory_regions_observed memory self regions
      pure (self, hash :: hashes)
    else
      hash_memory_regions_observed memory self regions

def hash_chunk_observed (width : Nat) (results : List Sha3_512Hash) (chunk : List (Slice U8)) :
    Observed Routine (List Sha3_512Hash) :=
  match width with
  | 8 => do
    let digests ← hash_batch_observed .keccak_f1600_x8_avx512 keccak_f1600_x8_avx512 chunk
    pure (results ++ digests)
  | 4 => do
    let digests ← hash_batch_observed .keccak_f1600_x4_avx2 keccak_f1600_x4_avx2 chunk
    pure (results ++ digests)
  | _ =>
    chunk.foldlM (fun results m => do
      let (_, digest) ← (Sha3_512Kernel.new p).hash_observed p m
      pure (results ++ [digest])) results

/-- How many messages `hash_many` batches together, where the build has the method:
`std` on x86_64. -/
def width_observed (self : Sha3_512Kernel) : Observed Routine Nat := do
  if ← branch (self.config.use_avx512 && p.avx512f) then pure 8
  else if ← branch (self.config.use_avx2 && p.avx2) then pure 4
  else pure 1

def hash_many_observed (self : Sha3_512Kernel) (messages : List (Slice U8)) :
    Observed Routine (List Sha3_512Hash) := do
  let width ← self.width_observed p
  (chunks (max width 1) messages).foldlM (hash_chunk_observed p width) []

def finalize_observed (self : Sha3_512Kernel) : Observed Routine (Sha3_512Kernel × Sha3_512Hash) := do
  let (state, hash) ← self.state.finalize_observed p self.config.use_avx512
  pure ({ self with state }, hash)

def update_observed (self : Sha3_512Kernel) (data : Slice U8) : Observed Routine Sha3_512Kernel := do
  let state ← self.state.absorb_observed p data self.config.use_avx512
  pure { self with state }

end Sha3_512Kernel

def step_observed (p : Platform) (k : Sha3_512Kernel) : Op → Observed Routine (Sha3_512Kernel × Output)
  | .update data => do
    let k ← k.update_observed p data
    pure (k, .unit)
  | .finalize => do
    let (k, hash) ← k.finalize_observed p
    pure (k, .hash hash)
  | .finalize_digest => do
    let (k, hash) ← k.finalize_observed p
    pure (k, .digest ⟨hash⟩)
  | .hash data => do
    let (k, hash) ← k.hash_observed p data
    pure (k, .hash hash)
  | .hash_digest data => do
    let (k, hash) ← k.hash_observed p data
    pure (k, .digest ⟨hash⟩)
  | .hash_memory_region memory base_address size => do
    let (k, hash) ← k.hash_memory_region_observed p memory base_address size
    pure (k, .hash hash)
  | .hash_memory_regions memory regions => do
    let (k, hashes) ← k.hash_memory_regions_observed p memory regions
    pure (k, .hashes hashes)
  | .hash_many messages => do
    let hashes ← k.hash_many_observed p messages
    pure (k, .hashes hashes)
  | .reset => pure (k.reset, .unit)
  | .update_config config => pure (k.update_config config, .unit)
  | .config => pure (k, .config k.config)
  | .simd_features => pure (k, .simd_features k.simd_features)

/-- Construct a hasher and make the calls. -/
def run_observed (p : Platform) (config : PerformanceConfig) (ops : List Op) :
    Observed Routine (Sha3_512Kernel × List Output) :=
  Observe.run (step_observed p) (.with_config p config) ops

/-! ## Leaving the events out -/

theorem value_pad_message (msg : Slice U8) : (pad_message_observed msg).value = pad_message msg := by
  simp only [pad_message_observed, pad_message, value_bind, value_lift, value_copy_from_slice, value_store,
    value_index, value_pure, pure_eq_ok]

section Batch
variable {lanes : Nat}

theorem value_xor_blocks (padded : List (List U8)) (num_blocks : List Nat) (block_idx : Nat)
    (states : Vector Lanes lanes) :
    (xor_blocks_observed padded num_blocks block_idx states).value =
      xor_blocks padded num_blocks block_idx states := by
  simp only [xor_blocks_observed, xor_blocks, xor_block_into, value_forRange, value_bind, value_index, value_branch,
    ok_bind, value_ite, decide_eq_true_eq, value_lift, value_slice, value_xor_words, value_store, value_pure,
    pure_eq_ok]

theorem value_take_digests {messages : Nat} (num_blocks : List Nat) (block_idx : Nat) (states : Vector Lanes lanes)
    (results : Vector Sha3_512Hash messages) :
    (take_digests_observed num_blocks block_idx states results).value =
      take_digests num_blocks block_idx states results := by
  simp only [take_digests_observed, take_digests, value_forRange, value_bind, value_index, value_branch,
    ok_bind, value_ite, decide_eq_true_eq, value_lift, value_squeeze, value_store, value_pure, pure_eq_ok]

theorem value_hash_batch (routine : Routine) (permute_all : Vector Lanes lanes → Vector Lanes lanes)
    (chunk : List (Slice U8)) :
    (hash_batch_observed routine permute_all chunk).value = hash_batch permute_all chunk := by
  simp only [hash_batch_observed, batch_rounds_observed, hash_batch, value_bind, value_lift, value_mapM,
    value_pad_message, value_forRange, value_xor_blocks, value_see, ok_bind, value_take_digests, value_pure,
    pure_eq_ok]

end Batch

namespace Sha3_512Kernel
variable (p : Platform) (self : Sha3_512Kernel)

theorem value_hash (data : Slice U8) : (self.hash_observed p data).value = self.hash p data := by
  simp only [hash_observed, hash, value_bind, Sha3_512State.value_absorb, Sha3_512State.value_finalize, value_pure,
    pure_eq_ok]

theorem value_hash_memory_region (memory : Memory) (base_address : U64) (size : Nat) :
    (self.hash_memory_region_observed p memory base_address size).value =
      self.hash_memory_region p memory base_address size := by
  unfold hash_memory_region_observed hash_memory_region
  simp only [value_bind, value_see, ok_bind]
  split
  · rfl
  · exact value_hash p self _

theorem value_hash_memory_regions (memory : Memory) (regions : List MemoryRegion) :
    (self.hash_memory_regions_observed p memory regions).value = self.hash_memory_regions p memory regions := by
  unfold hash_memory_regions
  induction regions generalizing self with
  | nil => rfl
  | cons region regions ih =>
    unfold hash_memory_regions_observed
    simp only [value_bind, value_branch, ok_bind, value_ite, value_hash_memory_region, ih, value_pure]
    by_cases h : eligible region = true
    · rw [if_pos h, List.filter_cons_of_pos h]
      rfl
    · rw [if_neg h, List.filter_cons_of_neg h]

theorem value_hash_chunk (width : Nat) (results : List Sha3_512Hash) (chunk : List (Slice U8)) :
    (hash_chunk_observed p width results chunk).value = hash_chunk p width results chunk := by
  unfold hash_chunk_observed hash_chunk hash_batch_x8 hash_batch_x4
  split
  · simp only [value_bind, value_hash_batch, value_pure, pure_eq_ok]
  · simp only [value_bind, value_hash_batch, value_pure, pure_eq_ok]
  · simp only [value_foldlM, value_bind, value_hash, value_pure, pure_eq_ok]

theorem value_hash_many (messages : List (Slice U8)) :
    (self.hash_many_observed p messages).value = self.hash_many p messages := by
  unfold hash_many_observed width_observed hash_many
  simp only [value_bind, value_branch, ok_bind, value_ite, value_foldlM, value_hash_chunk, value_pure]
  split
  · rfl
  · split
    · rfl
    · rfl

end Sha3_512Kernel

theorem value_step (p : Platform) (k : Sha3_512Kernel) (op : Op) : (step_observed p k op).value = step p k op := by
  cases op with
  | update data =>
    simp only [step_observed, step, Sha3_512Kernel.update_observed, Sha3_512Kernel.update, value_bind,
      Sha3_512State.value_absorb, value_pure, pure_eq_ok]
  | finalize =>
    simp only [step_observed, step, Sha3_512Kernel.finalize_observed, Sha3_512Kernel.finalize, value_bind,
      Sha3_512State.value_finalize, value_pure, pure_eq_ok]
  | finalize_digest =>
    simp only [step_observed, step, Sha3_512Kernel.finalize_observed, Sha3_512Kernel.finalize_digest,
      Sha3_512Kernel.finalize, value_bind, Sha3_512State.value_finalize, value_pure, pure_eq_ok, bind_assoc, ok_bind]
  | hash data => simp only [step_observed, step, value_bind, Sha3_512Kernel.value_hash, value_pure, pure_eq_ok]
  | hash_digest data =>
    simp only [step_observed, step, Sha3_512Kernel.hash_digest, value_bind, Sha3_512Kernel.value_hash, value_pure,
      pure_eq_ok, bind_assoc, ok_bind]
  | hash_memory_region memory base_address size =>
    simp only [step_observed, step, value_bind, Sha3_512Kernel.value_hash_memory_region, value_pure, pure_eq_ok]
  | hash_memory_regions memory regions =>
    simp only [step_observed, step, value_bind, Sha3_512Kernel.value_hash_memory_regions, value_pure, pure_eq_ok]
  | hash_many messages =>
    simp only [step_observed, step, value_bind, Sha3_512Kernel.value_hash_many, value_pure, pure_eq_ok]
  | _ => rfl

/-- The observed run is the run. -/
theorem value_run_observed (p : Platform) (config : PerformanceConfig) (ops : List Op) :
    (run_observed p config ops).value = run p config ops := by
  unfold run_observed run
  rw [value_run]
  simp only [value_step]

/-! ## Two runs show the same -/

/-- Messages that differ in their bytes only. -/
def SameLength (m m' : Slice U8) : Prop := m.len = m'.len

theorem pad_message_same_view {m m' : Slice U8} (h : SameLength m m') :
    SameView (fun b b' => b.length = b'.length) (pad_message_observed m) (pad_message_observed m') := by
  unfold pad_message_observed
  rw [h]
  apply SameView.bind_same
  intro total_len
  refine (SameView.copy_from_slice _ _ _ _ h).bind fun buf buf' _ => ?_
  refine (SameView.store _ _ _ _ _).bind fun buf buf' _ => ?_
  apply SameView.bind_same
  intro last
  refine (SameView.index (by simp) _).bind fun byte byte' _ => ?_
  exact (SameView.store _ _ _ _ _).bind fun buf buf' _ => .ret (by simp)

section Batch
variable {lanes : Nat}

theorem xor_blocks_same_view {padded padded' : List (List U8)}
    (h : List.Forall₂ (fun b b' => b.length = b'.length) padded padded') (num_blocks : List Nat) (block_idx : Nat)
    (states states' : Vector Lanes lanes) :
    SameView (fun _ _ => True) (xor_blocks_observed padded num_blocks block_idx states)
      (xor_blocks_observed padded' num_blocks block_idx states') := by
  refine .forRange 0 _ (fun i states states' _ => ?_) trivial
  apply SameView.bind_same
  intro n
  apply SameView.bind_same
  intro more
  split
  · apply SameView.bind_same
    intro start
    apply SameView.bind_same
    intro block_end
    refine (SameView.index_related h i).bind fun message message' hmessage => ?_
    refine (SameView.slice hmessage _ _).bind fun block block' hblock => ?_
    refine (SameView.index (by simp) i).bind fun state state' _ => ?_
    refine (xor_words_same_view _ hblock _ _).bind fun state state' _ => ?_
    exact .store _ _ i _ _
  · exact .ret trivial

theorem take_digests_same_view {messages : Nat} (num_blocks : List Nat) (block_idx : Nat)
    (states states' : Vector Lanes lanes) (results results' : Vector Sha3_512Hash messages) :
    SameView (fun _ _ => True) (take_digests_observed num_blocks block_idx states results)
      (take_digests_observed num_blocks block_idx states' results') := by
  refine .forRange 0 _ (fun i results results' _ => ?_) trivial
  apply SameView.bind_same
  intro n
  apply SameView.bind_same
  intro last
  apply SameView.bind_same
  intro done
  split
  · refine (SameView.index (by simp) i).bind fun state state' _ => ?_
    refine (squeeze_same_view state state').bind fun digest digest' _ => ?_
    exact .store _ _ i _ _
  · exact .ret trivial

theorem batch_rounds_same_view {messages messages' : Nat} (hmessages : messages = messages') (routine : Routine)
    (permute_all : Vector Lanes lanes → Vector Lanes lanes) {padded padded' : List (List U8)}
    (h : List.Forall₂ (fun b b' => b.length = b'.length) padded padded') (num_blocks : List Nat) (max_blocks : Nat)
    (states states' : Vector Lanes lanes) (results : Vector Sha3_512Hash messages)
    (results' : Vector Sha3_512Hash messages') :
    SameView (fun _ _ => True)
      (batch_rounds_observed routine permute_all padded num_blocks max_blocks states results)
      (batch_rounds_observed routine permute_all padded' num_blocks max_blocks states' results') := by
  subst hmessages
  refine .forRange 0 _ (fun block_idx r r' _ => ?_) trivial
  refine (xor_blocks_same_view h num_blocks block_idx _ _).bind fun states states' _ => ?_
  refine .bind_same _ fun _ => ?_
  exact (take_digests_same_view num_blocks block_idx _ _ _ _).bind fun _ _ _ => .ret trivial

theorem hash_batch_same_view (routine : Routine) (permute_all : Vector Lanes lanes → Vector Lanes lanes)
    {chunk chunk' : List (Slice U8)} (h : List.Forall₂ SameLength chunk chunk') :
    SameView (fun _ _ => True) (hash_batch_observed routine permute_all chunk)
      (hash_batch_observed routine permute_all chunk') := by
  have hassert : SameView Eq (lift (debug_assert (decide (chunk.length ≤ lanes))) : Observed Routine Unit)
      (lift (debug_assert (decide (chunk'.length ≤ lanes)))) := by
    rw [h.length_eq]
    exact .same _
  have hpad := SameView.mapM (A := SameLength) (fun m m' hm => pad_message_same_view hm) h
  unfold hash_batch_observed
  refine hassert.bind fun _ _ _ => ?_
  refine hpad.bind fun padded padded' hpadded => ?_
  have hcounts : (padded.map fun p => p.length / SHA3_512_RATE) = padded'.map fun p => p.length / SHA3_512_RATE := by
    induction hpadded with
    | nil => rfl
    | cons hp _ ih => rw [List.map_cons, List.map_cons, hp, ih]
  dsimp only
  rw [hcounts]
  exact (batch_rounds_same_view h.length_eq routine permute_all hpadded _ _ _ _ _ _).bind fun _ _ _ => .ret trivial

end Batch

theorem chunks_forall₂ {α : Type} {A : α → α → Prop} (n : Nat) {xs ys : List α} (h : List.Forall₂ A xs ys) :
    List.Forall₂ (List.Forall₂ A) (chunks n xs) (chunks n ys) := by
  induction xs using chunks.induct n generalizing ys with
  | case1 xs hxs ih =>
    have hys : 0 < n ∧ 0 < ys.length := h.length_eq ▸ hxs
    unfold chunks
    rw [if_pos hxs, if_pos hys]
    exact .cons (List.forall₂_take n h) (ih (List.forall₂_drop n h))
  | case2 xs hxs =>
    have hys : ¬(0 < n ∧ 0 < ys.length) := h.length_eq ▸ hxs
    unfold chunks
    rw [if_neg hxs, if_neg hys]
    exact .nil

/-- What an onlooker may know of a hasher. -/
structure SameSetup (k k' : Sha3_512Kernel) : Prop where
  shape : SameShape k.state k'.state
  config : k.config = k'.config

namespace Sha3_512Kernel
variable (p : Platform) {k k' : Sha3_512Kernel}

theorem hash_same_view (h : SameSetup k k') {data data' : Slice U8} (hlen : SameLength data data') :
    SameView (fun r r' => SameSetup r.1 r'.1) (k.hash_observed p data) (k'.hash_observed p data') := by
  unfold hash_observed
  rw [h.config]
  have hreset : SameShape k.state.reset k'.state.reset := ⟨rfl, h.shape.rate⟩
  refine (Sha3_512State.absorb_same_view p _ hreset hlen).bind fun s s' hs => ?_
  exact (Sha3_512State.finalize_same_view p _ hs).bind fun r r' hr => .ret ⟨hr, rfl⟩

theorem hash_memory_region_same_view (h : SameSetup k k') (memory memory' : Memory) (base_address : U64)
    (size : Nat) :
    SameView (fun r r' => SameSetup r.1 r'.1) (k.hash_memory_region_observed p memory base_address size)
      (k'.hash_memory_region_observed p memory' base_address size) := by
  unfold hash_memory_region_observed
  refine .bind_same _ fun _ => ?_
  split
  · exact .ret h
  · exact hash_same_view p h (show _ = _ by simp [from_raw_parts, Slice.len])

theorem hash_memory_regions_same_view (h : SameSetup k k') (memory memory' : Memory) (regions : List MemoryRegion) :
    SameView (fun r r' => SameSetup r.1 r'.1) (k.hash_memory_regions_observed p memory regions)
      (k'.hash_memory_regions_observed p memory' regions) := by
  induction regions generalizing k k' with
  | nil => exact .ret h
  | cons region regions ih =>
    unfold hash_memory_regions_observed
    apply SameView.bind_same
    intro chosen
    split
    · refine (hash_memory_region_same_view p h memory memory' _ _).bind fun r r' hr => ?_
      exact (ih hr).bind fun q q' hq => .ret hq
    · exact ih h

theorem hash_chunk_same_view (width : Nat) (results results' : List Sha3_512Hash) {chunk chunk' : List (Slice U8)}
    (h : List.Forall₂ SameLength chunk chunk') :
    SameView (fun _ _ => True) (hash_chunk_observed p width results chunk)
      (hash_chunk_observed p width results' chunk') := by
  unfold hash_chunk_observed
  split
  · exact (hash_batch_same_view _ _ h).bind fun _ _ _ => .ret trivial
  · exact (hash_batch_same_view _ _ h).bind fun _ _ _ => .ret trivial
  · refine .foldlM (fun results results' m m' _ hm => ?_) h trivial
    exact (hash_same_view p ⟨⟨rfl, rfl⟩, rfl⟩ hm).bind fun _ _ _ => .ret trivial

theorem hash_many_same_view (h : SameSetup k k') {messages messages' : List (Slice U8)}
    (hlen : List.Forall₂ SameLength messages messages') :
    SameView (fun _ _ => True) (k.hash_many_observed p messages) (k'.hash_many_observed p messages') := by
  unfold hash_many_observed width_observed
  rw [h.config]
  apply SameView.bind_same
  intro width
  exact .foldlM (A := List.Forall₂ SameLength)
    (fun results results' chunk chunk' _ h => hash_chunk_same_view p width results results' h)
    (chunks_forall₂ _ hlen) trivial

end Sha3_512Kernel

/-- Calls of one kind with the same lengths, addresses, regions and
configuration; the bytes behind them are free. -/
inductive SameRequest : Op → Op → Prop where
  | same (op : Op) : SameRequest op op
  | update {data data'} (h : SameLength data data') : SameRequest (.update data) (.update data')
  | hash {data data'} (h : SameLength data data') : SameRequest (.hash data) (.hash data')
  | hash_digest {data data'} (h : SameLength data data') : SameRequest (.hash_digest data) (.hash_digest data')
  | hash_memory_region (memory memory' : Memory) (base_address : U64) (size : Nat) :
      SameRequest (.hash_memory_region memory base_address size) (.hash_memory_region memory' base_address size)
  | hash_memory_regions (memory memory' : Memory) (regions : List MemoryRegion) :
      SameRequest (.hash_memory_regions memory regions) (.hash_memory_regions memory' regions)
  | hash_many {messages messages'} (h : List.Forall₂ SameLength messages messages') :
      SameRequest (.hash_many messages) (.hash_many messages')

/-- The calls of one kind and shape, on hashers of one shape, show the same. -/
theorem step_same_view (p : Platform) {k k' : Sha3_512Kernel} {op op' : Op} (h : SameSetup k k')
    (hop : SameRequest op op') :
    SameView (fun r r' => SameSetup r.1 r'.1) (step_observed p k op) (step_observed p k' op') := by
  have hrefl : ∀ m, SameLength m m := fun m => rfl
  have hupdate : ∀ {data data'}, SameLength data data' →
      SameView (fun r r' => SameSetup r.1 r'.1) (step_observed p k (.update data))
        (step_observed p k' (.update data')) := by
    intro data data' hlen
    unfold step_observed Sha3_512Kernel.update_observed
    rw [h.config]
    refine SameView.bind (R := SameSetup) ?_ fun k k' hk => .ret hk
    exact (Sha3_512State.absorb_same_view p _ h.shape hlen).bind fun s s' hs => .ret ⟨hs, rfl⟩
  have hfinalize : SameView (fun r r' => SameSetup r.1 r'.1) (k.finalize_observed p) (k'.finalize_observed p) := by
    unfold Sha3_512Kernel.finalize_observed
    rw [h.config]
    exact (Sha3_512State.finalize_same_view p _ h.shape).bind fun r r' hr => .ret ⟨hr, rfl⟩
  have hhash : ∀ {data data'}, SameLength data data' → _ := fun hlen => Sha3_512Kernel.hash_same_view p h hlen
  have hmany : ∀ {messages messages'}, List.Forall₂ SameLength messages messages' →
      SameView (fun r r' => SameSetup r.1 r'.1) (step_observed p k (.hash_many messages))
        (step_observed p k' (.hash_many messages')) :=
    fun hlen => (Sha3_512Kernel.hash_many_same_view p h hlen).bind fun _ _ _ => .ret h
  cases hop with
  | update hlen => exact hupdate hlen
  | hash hlen => exact (hhash hlen).bind fun r r' hr => .ret hr
  | hash_digest hlen => exact (hhash hlen).bind fun r r' hr => .ret hr
  | hash_memory_region memory memory' base_address size =>
    exact (Sha3_512Kernel.hash_memory_region_same_view p h _ _ _ _).bind fun r r' hr => .ret hr
  | hash_memory_regions memory memory' regions =>
    exact (Sha3_512Kernel.hash_memory_regions_same_view p h _ _ _).bind fun r r' hr => .ret hr
  | hash_many hlen => exact hmany hlen
  | same =>
    cases op with
    | reset => exact .ret ⟨⟨rfl, h.shape.rate⟩, h.config⟩
    | update data => exact hupdate (hrefl data)
    | finalize => exact hfinalize.bind fun r r' hr => .ret hr
    | finalize_digest => exact hfinalize.bind fun r r' hr => .ret hr
    | hash data => exact (hhash (hrefl data)).bind fun r r' hr => .ret hr
    | hash_digest data => exact (hhash (hrefl data)).bind fun r r' hr => .ret hr
    | hash_memory_region memory base_address size =>
      exact (Sha3_512Kernel.hash_memory_region_same_view p h _ _ _ _).bind fun r r' hr => .ret hr
    | hash_memory_regions memory regions =>
      exact (Sha3_512Kernel.hash_memory_regions_same_view p h _ _ _).bind fun r r' hr => .ret hr
    | hash_many messages => exact hmany (List.forall₂_same.2 fun m _ => hrefl m)
    | update_config config => exact .ret ⟨h.shape, rfl⟩
    | config => exact .ret h
    | simd_features => exact .ret h

/-- No byte of a message steers the code: runs of calls that agree in kind,
lengths, addresses and configuration take the same branches, touch the same
places and run the same permutations, from construction to their end. -/
theorem bytes_never_show (p : Platform) (config : PerformanceConfig) {ops ops' : List Op}
    (hops : List.Forall₂ SameRequest ops ops') :
    (run_observed p config ops).value = run p config ops ∧
      (run_observed p config ops).events = (run_observed p config ops').events := by
  refine ⟨value_run_observed p config ops, ?_⟩
  have hview := SameView.run (fun k k' op op' => step_same_view p) hops
    (⟨⟨rfl, rfl⟩, rfl⟩ : SameSetup (.with_config p config) (.with_config p config))
  exact hview.events

/-- Messages that share no byte, streamed and hashed in a batch. -/
theorem bytes_never_show_pair :
    let ops (m m' : Slice U8) : List Op := [.update m, .finalize, .hash_many [m']]
    let first := ops ⟨[1, 2], by decide⟩ ⟨[7], by decide⟩
    let second := ops ⟨[3, 4], by decide⟩ ⟨[8], by decide⟩
    let p : Platform := ⟨true, true, true, true, true, true, true⟩
    (run_observed p .default first).value = run p .default first ∧
      (run_observed p .default first).events = (run_observed p .default second).events :=
  bytes_never_show _ _ (.cons (.update rfl) (.cons (.same _) (.cons (.hash_many (.cons rfl .nil)) .nil)))

end Sha3Kernel
