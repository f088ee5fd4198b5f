import Sha3Kernel.ObservedCalls
/-!
# Which permutations run

A permutation runs once for each block, and never otherwise: `schedule` tells
the permutations of a whole run, in order, from the lengths that the calls were
handed. A block takes the path that the build, the CPU and the flag in force
choose, so a flag that is flipped between two updates splits the paths there.
-/

namespace Sha3Kernel

open HashLib HashLib.Bits HashLib.Checked HashLib.Blocks HashLib.Observe

/-- The path of a single permutation. -/
def path (p : Platform) (use_avx512 : Bool) : Routine :=
  if p.std_x86_64 && (use_avx512 && p.avx512f) then .keccak_f1600_avx512 else .keccak_f1600

/-! ## The sponge -/

theorem calls_permute (p : Platform) (state : Lanes) (use_avx512 : Bool) :
    Calls (permute_observed p state use_avx512) (fun _ t => t = [path p use_avx512]) := by
  unfold permute_observed path
  cases p.std_x86_64 with
  | false => exact .call _ _
  | true =>
    refine Calls.branch_then ?_
    simp only [Bool.true_and]
    split
    · exact .call _ _
    · exact .call _ _

theorem calls_read_word (block : List U8) (off : Nat) :
    Calls (read_word_observed block off) (fun _ t => t = []) := by
  have hindex : ∀ i, Calls (Observe.index block i : Observed Routine U8) (fun _ t => t = []) := fun i => .index block i
  unfold read_word_observed
  refine (hindex _).skip fun _ => (hindex _).skip fun _ => (hindex _).skip fun _ => (hindex _).skip fun _ => ?_
  refine (hindex _).skip fun _ => (hindex _).skip fun _ => (hindex _).skip fun _ => (hindex _).skip fun _ => ?_
  exact .ret rfl

theorem calls_xor_words (words : Nat) (block : List U8) (state : Lanes) :
    Calls (xor_words_observed words block state) (fun _ t => t = []) := by
  refine .forRange_quiet (fun i state => ?_) state
  exact (calls_read_word block _).skip fun word => (Calls.index _ _).skip fun lane => .store _ _ _

theorem calls_squeeze (state : Lanes) : Calls (squeeze_observed state) (fun _ t => t = []) := by
  refine .forRange_quiet (fun i hash => ?_) _
  exact (Calls.index _ _).skip fun lane => .copy_from_slice _ _ _ _

namespace Sha3_512State
variable (p : Platform) (use_avx512 : Bool) {self : Sha3_512State} (data : Slice U8)

theorem calls_xor_block_into_state (self : Sha3_512State) :
    Calls self.xor_block_into_state_observed (fun s t => (s.pos = self.pos ∧ s.rate = self.rate) ∧ t = []) := by
  unfold xor_block_into_state_observed
  exact (calls_xor_words _ _ _).skip fun state => .ret ⟨⟨rfl, rfl⟩, rfl⟩

/-- Part of the data is in: a permutation for each 72 bytes, and the rest of them
waits. Data is left only when nothing waits. -/
def Counted (start : Nat) (r : Sha3_512State × Nat) (t : List Routine) : Prop :=
  r.1.rate = 72 ∧ (r.1.pos = 0 ∨ data.len ≤ r.2) ∧
    ∃ n, t = List.replicate n (path p use_avx512) ∧ start + r.2 = 72 * n + r.1.pos

theorem calls_absorb_fill (hrate : self.rate = 72) :
    Calls (self.absorb_fill_observed p data use_avx512) (Counted p use_avx512 data self.pos) := by
  unfold absorb_fill_observed
  refine Calls.branch_then ?_
  by_cases h0 : 0 < self.pos
  · rw [if_pos (decide_eq_true h0)]
    refine (Calls.lift _).bind ?_
    rintro remaining _ ⟨hremaining, rfl⟩
    obtain ⟨hle, rfl⟩ := usize_sub_ok hremaining
    refine (Calls.slice _ _ _).skip fun src => ?_
    refine (Calls.lift _).bind ?_
    rintro pos _ ⟨hpos, rfl⟩
    obtain rfl := usize_add_ok hpos
    refine (Calls.copy_from_slice _ _ _ _).skip fun buffer => ?_
    refine (Calls.lift _).bind ?_
    rintro offset _ ⟨hoffset, rfl⟩
    obtain rfl := usize_add_ok hoffset
    refine Calls.branch_then ?_
    dsimp only
    by_cases hfull : self.pos + min (self.rate - self.pos) data.len = self.rate
    · rw [if_pos (decide_eq_true hfull)]
      refine (calls_xor_block_into_state _).bind ?_
      rintro s _ ⟨⟨-, hs⟩, rfl⟩
      refine (calls_permute p _ use_avx512).costs fun state => ?_
      refine .ret ⟨hs.trans hrate, .inl rfl, 1, rfl, ?_⟩
      dsimp only
      omega
    · rw [if_neg (by simpa using hfull)]
      refine .ret ⟨hrate, .inr ?_, 0, rfl, ?_⟩
      · dsimp only
        omega
      · dsimp only
        omega
  · rw [if_neg (by simpa using h0)]
    exact .ret ⟨hrate, .inl (by dsimp only; omega), 0, rfl, by dsimp only; omega⟩

theorem calls_absorb_block (start : Nat) (r : Sha3_512State × Nat) (t : List Routine)
    (hr : Counted p use_avx512 data start r t) :
    Calls (absorb_block_observed p data use_avx512 r) (fun r' t' =>
      r'.Post (Counted p use_avx512 data start · (t ++ t')) (Counted p use_avx512 data start · (t ++ t'))) := by
  obtain ⟨self, offset⟩ := r
  obtain ⟨hrate, hleft, n, rfl, hcount⟩ := hr
  dsimp only at hrate hleft hcount
  unfold absorb_block_observed
  refine (Calls.lift _).bind ?_
  rintro block_end _ ⟨hend, rfl⟩
  obtain rfl := usize_add_ok hend
  refine Calls.branch_then ?_
  by_cases hmore : offset + self.rate ≤ data.len
  · rw [if_pos (decide_eq_true hmore)]
    refine (Calls.slice _ _ _).skip fun block => ?_
    refine (calls_xor_words _ _ _).skip fun state => ?_
    refine (calls_permute p state use_avx512).costs fun state' => ?_
    refine (Calls.lift _).bind ?_
    rintro offset' _ ⟨hoffset, rfl⟩
    obtain rfl := usize_add_ok hoffset
    refine .ret ⟨hrate, .inl ?_, n + 1, ?_, ?_⟩
    · dsimp only
      omega
    · simp [List.replicate_succ']
    · dsimp only
      omega
  · rw [if_neg (by simpa using hmore)]
    refine .ret ⟨hrate, hleft, n, ?_, hcount⟩
    simp

theorem calls_absorb_tail {start offset : Nat} {t : List Routine}
    (hr : Counted p use_avx512 data start (self, offset) t) :
    Calls (self.absorb_tail_observed data offset) (fun s t' =>
      ∃ n, t ++ t' = List.replicate n (path p use_avx512) ∧ start + data.len = 72 * n + s.pos) := by
  obtain ⟨-, hleft, n, rfl, hcount⟩ := hr
  dsimp only at hleft hcount
  unfold absorb_tail_observed
  refine (Calls.lift _).bind ?_
  rintro tail _ ⟨htail, rfl⟩
  obtain ⟨hle, rfl⟩ := usize_sub_ok htail
  refine Calls.branch_then ?_
  by_cases hmore : 0 < data.len - offset
  · rw [if_pos (decide_eq_true hmore)]
    refine (Calls.slice _ _ _).skip fun src => (Calls.copy_from_slice _ _ _ _).skip fun buffer => ?_
    refine .ret ⟨n, by simp, ?_⟩
    dsimp only
    omega
  · rw [if_neg (by simpa using hmore)]
    exact .ret ⟨n, by simp, by omega⟩

/-- `absorb` permutes once for every 72 bytes of what waits and comes in. -/
theorem calls_absorb (h : Inv self) :
    Calls (self.absorb_observed p data use_avx512) (fun _ t =>
      t = List.replicate ((self.pos + data.len) / 72) (path p use_avx512)) := by
  have hcount : Calls (self.absorb_observed p data use_avx512) (fun s t =>
      ∃ n, t = List.replicate n (path p use_avx512) ∧ self.pos + data.len = 72 * n + s.pos) := by
    unfold absorb_observed
    refine (calls_absorb_fill p use_avx512 data h.rate).bind fun r t hr => ?_
    refine (Calls.loop _ _ (calls_absorb_block p use_avx512 data self.pos) _ hr).bind ?_
    rintro ⟨s, offset⟩ t' hs
    exact (calls_absorb_tail p use_avx512 data hs).mono fun s t'' hs => by rwa [← List.append_assoc]
  have hpos : Returns (self.absorb_observed p data use_avx512).value (fun s => s.pos < 72) := by
    obtain ⟨b, hb⟩ := h.holds
    rw [value_absorb]
    exact (absorb_spec p use_avx512 data hb).mono fun s hs => hs.inv.pos
  refine (hcount.and_value hpos).mono ?_
  rintro s _ ⟨hlt, n, rfl, hn⟩
  congr 1
  omega

/-- `finalize` permutes once. -/
theorem calls_finalize (self : Sha3_512State) :
    Calls (self.finalize_observed p use_avx512) (fun _ t => t = [path p use_avx512]) := by
  unfold finalize_observed
  have hclear : Calls
      (Observe.forRange self.pos self.rate (fun i b => Observe.store b i 0) self.buffer : Observed Routine _)
      (fun _ t => t = []) := .forRange_quiet (fun i b => .store b i 0) _
  refine hclear.skip fun buffer => (Calls.store _ _ _).skip fun buffer => ?_
  refine ((Calls.lift _).mono fun _ _ h => h.2).skip fun last => (Calls.index _ _).skip fun byte => ?_
  refine (Calls.store _ _ _).skip fun buffer => ?_
  refine ((calls_xor_block_into_state _).mono fun _ _ h => h.2).skip fun s => ?_
  refine (calls_permute p _ use_avx512).costs fun state => ?_
  exact (calls_squeeze _).costs fun hash => .ret rfl

end Sha3_512State

/-! ## Batches -/

section Batch
variable {lanes : Nat}

theorem calls_pad_message (m : Slice U8) : Calls (pad_message_observed m) (fun _ t => t = []) := by
  unfold pad_message_observed
  refine ((Calls.lift _).mono fun _ _ h => h.2).skip fun total_len => (Calls.copy_from_slice _ _ _ _).skip fun buf => ?_
  refine (Calls.store _ _ _).skip fun buf => ((Calls.lift _).mono fun _ _ h => h.2).skip fun last => ?_
  exact (Calls.index _ _).skip fun byte => (Calls.store _ _ _).skip fun buf => .ret rfl

theorem calls_xor_blocks (padded : List (List U8)) (num_blocks : List Nat) (block_idx : Nat)
    (states : Vector Lanes lanes) :
    Calls (xor_blocks_observed padded num_blocks block_idx states) (fun _ t => t = []) := by
  refine .forRange_quiet (fun i states => ?_) states
  refine (Calls.index _ _).skip fun n => ((Calls.branch _).mono fun _ _ h => h.2).skip fun more => ?_
  split
  · refine ((Calls.lift _).mono fun _ _ h => h.2).skip fun start => ?_
    refine ((Calls.lift _).mono fun _ _ h => h.2).skip fun block_end => (Calls.index _ _).skip fun message => ?_
    refine (Calls.slice _ _ _).skip fun block => (Calls.index _ _).skip fun state => ?_
    exact (calls_xor_words _ _ _).skip fun state => .store _ _ _
  · exact .ret rfl

theorem calls_take_digests {messages : Nat} (num_blocks : List Nat) (block_idx : Nat) (states : Vector Lanes lanes)
    (results : Vector Sha3_512Hash messages) :
    Calls (take_digests_observed num_blocks block_idx states results) (fun _ t => t = []) := by
  refine .forRange_quiet (fun i results => ?_) results
  refine (Calls.index _ _).skip fun n => ((Calls.lift _).mono fun _ _ h => h.2).skip fun last => ?_
  refine ((Calls.branch _).mono fun _ _ h => h.2).skip fun done => ?_
  split
  · exact (Calls.index _ _).skip fun state => (calls_squeeze state).skip fun digest => .store _ _ _
  · exact .ret rfl

/-- A batch permutes as often as its longest message has blocks. -/
theorem calls_hash_batch (routine : Routine) (permute_all : Vector Lanes lanes → Vector Lanes lanes)
    (chunk : List (Slice U8)) :
    Calls (hash_batch_observed routine permute_all chunk) (fun _ t =>
      t = List.replicate ((chunk.map blockCount).max?.getD 0) routine) := by
  unfold hash_batch_observed
  refine ((Calls.lift _).mono fun _ _ h => h.2).skip fun _ => ?_
  have hpadded : Returns (Observe.mapM pad_message_observed chunk).value
      (fun padded => padded = chunk.map fun m => paddedMessage m.val) := by
    rw [value_mapM]
    refine .of_eq (mapM_eq_map fun m _ => ?_) rfl
    rw [value_pad_message, pad_message_eq]
  refine ((Calls.mapM calls_pad_message chunk).and_value hpadded).bind ?_
  rintro _ _ ⟨rfl, rfl⟩
  have hcounts : (chunk.map fun m => paddedMessage m.val).map (fun p => p.length / SHA3_512_RATE) =
      chunk.map blockCount := by
    rw [List.map_map]
    refine List.map_congr_left fun m _ => ?_
    rw [Function.comp_apply, length_padded]
    exact Nat.mul_div_cancel _ (by decide)
  dsimp only
  rw [hcounts]
  have hround : ∀ (block_idx : Nat) (r : Vector Lanes lanes × Vector Sha3_512Hash chunk.length),
      Calls (do
        let states ← xor_blocks_observed (chunk.map fun m => paddedMessage m.val) (chunk.map blockCount) block_idx r.1
        see (.call routine)
        let states := permute_all states
        let results ← take_digests_observed (chunk.map blockCount) block_idx states r.2
        pure (states, results)) (fun _ t => t = [routine]) := by
    intro block_idx r
    refine (calls_xor_blocks _ _ _ _).skip fun states => ?_
    refine Calls.bind (P := fun _ t => t = [routine]) (fun _ _ => rfl) ?_
    rintro _ _ rfl
    exact (calls_take_digests _ _ _ _).skip fun results => .ret rfl
  refine (Calls.forRange hround _).costs fun r => ?_
  refine .ret ?_
  simp

end Batch

/-! ## Calls -/

/-- How many messages `hash_many` batches together. Other builds than `std` on x86_64
do not have the method, and no run of theirs calls it. -/
def batchWidth (p : Platform) (config : PerformanceConfig) : Nat :=
  if config.use_avx512 && p.avx512f then 8 else if config.use_avx2 && p.avx2 then 4 else 1

/-- The permutations for one chunk of a batch. -/
def chunkPermutations (width : Nat) (chunk : List (Slice U8)) : List Routine :=
  match width with
  | 8 => List.replicate ((chunk.map blockCount).max?.getD 0) .keccak_f1600_x8_avx512
  | 4 => List.replicate ((chunk.map blockCount).max?.getD 0) .keccak_f1600_x4_avx2
  | _ => chunk.flatMap fun m => List.replicate (blockCount m) .keccak_f1600

/-- The permutations that a call runs, from the lengths it is handed. -/
def Hasher.permutations (p : Platform) (h : Hasher) : Op → List Routine
  | .update data => List.replicate ((h.message.length % 72 + data.len) / 72) (path p h.config.use_avx512)
  | .finalize | .finalize_digest => [path p h.config.use_avx512]
  | .hash data | .hash_digest data => List.replicate (data.len / 72 + 1) (path p h.config.use_avx512)
  | .hash_memory_region _ _ size =>
    if size = 0 ∨ size > MAX_HASH_SIZE then [] else List.replicate (size / 72 + 1) (path p h.config.use_avx512)
  | .hash_memory_regions _ regions =>
    (regions.filter Sha3_512Kernel.eligible).flatMap fun region =>
      List.replicate (region.size / 72 + 1) (path p h.config.use_avx512)
  | .hash_many messages =>
    (chunks (max (batchWidth p h.config) 1) messages).flatMap (chunkPermutations (batchWidth p h.config))
  | .reset | .update_config _ | .config | .simd_features => []

section Calls
variable (p : Platform) {k : Sha3_512Kernel}

theorem calls_hash (h : Inv k.state) (data : Slice U8) :
    Calls (k.hash_observed p data) (fun _ t =>
      t = List.replicate (data.len / 72 + 1) (path p k.config.use_avx512)) := by
  unfold Sha3_512Kernel.hash_observed
  refine (Sha3_512State.calls_absorb p _ data (holds_reset h.rate).inv).costs fun state => ?_
  refine (Sha3_512State.calls_finalize p _ state).bind ?_
  rintro ⟨state', hash⟩ _ rfl
  refine .ret ?_
  rw [List.append_nil, ← List.replicate_succ', Sha3_512State.reset, Nat.zero_add]

/-- A region is refused or costs its blocks. -/
theorem calls_hash_memory_region (h : Inv k.state) (memory : Memory) (base_address : U64) (size : Nat) :
    Calls (k.hash_memory_region_observed p memory base_address size) (fun _ t =>
      t = if size = 0 ∨ size > MAX_HASH_SIZE then []
        else List.replicate (size / 72 + 1) (path p k.config.use_avx512)) := by
  unfold Sha3_512Kernel.hash_memory_region_observed
  refine Calls.skip (fun _ _ => rfl) fun _ => ?_
  split
  · exact .ret rfl
  · refine (calls_hash p h _).mono ?_
    rintro r _ rfl
    rw [from_raw_parts, Slice.len, List.length_map, List.length_range]

theorem calls_hash_memory_regions {h : Hasher} (hk : Stands p h k) (memory : Memory) (regions : List MemoryRegion) :
    Calls (k.hash_memory_regions_observed p memory regions) (fun _ t =>
      t = (regions.filter Sha3_512Kernel.eligible).flatMap fun region =>
        List.replicate (region.size / 72 + 1) (path p h.config.use_avx512)) := by
  induction regions generalizing h k with
  | nil => exact .ret rfl
  | cons region regions ih =>
    unfold Sha3_512Kernel.hash_memory_regions_observed
    refine Calls.branch_then ?_
    by_cases helig : Sha3_512Kernel.eligible region = true
    · have hsize : ¬(region.size = 0 ∨ region.size > MAX_HASH_SIZE) := by
        simp only [Sha3_512Kernel.eligible, Bool.and_eq_true, decide_eq_true_eq] at helig
        omega
      have hregion := hash_memory_region_stands p hk memory region.base_address region.size
      have hconfig : (h.hash_memory_region memory region.base_address region.size).1.config = h.config := by
        rw [Hasher.hash_memory_region, if_neg hsize]
      rw [← Sha3_512Kernel.value_hash_memory_region] at hregion
      rw [if_pos helig, List.filter_cons_of_pos helig, List.flatMap_cons, ← hk.config]
      refine ((calls_hash_memory_region p hk.sponge.inv memory _ _).and_value hregion).bind ?_
      rintro ⟨k', hash⟩ _ ⟨⟨hk', -⟩, rfl⟩
      refine (ih hk').bind ?_
      rintro ⟨k'', hashes⟩ _ rfl
      refine .ret ?_
      rw [if_neg hsize, hconfig, List.append_nil, hk.config]
    · rw [if_neg helig, List.filter_cons_of_neg helig]
      exact ih hk

theorem chunkPermutations_scalar {width : Nat} (h8 : width ≠ 8) (h4 : width ≠ 4) (chunk : List (Slice U8)) :
    chunkPermutations width chunk = chunk.flatMap fun m => List.replicate (blockCount m) .keccak_f1600 := by
  unfold chunkPermutations
  split
  · exact absurd rfl h8
  · exact absurd rfl h4
  · rfl

theorem calls_hash_chunk (width : Nat) (results : List Sha3_512Hash) (chunk : List (Slice U8)) :
    Calls (Sha3_512Kernel.hash_chunk_observed p width results chunk)
      (fun _ t => t = chunkPermutations width chunk) := by
  unfold Sha3_512Kernel.hash_chunk_observed
  split
  · exact (calls_hash_batch _ _ _).costs fun digests => .ret (List.append_nil _)
  · exact (calls_hash_batch _ _ _).costs fun digests => .ret (List.append_nil _)
  · rename_i h8 h4
    rw [chunkPermutations_scalar h8 h4]
    have hpath : path p (Sha3_512Kernel.new p).config.use_avx512 = .keccak_f1600 := by
      simp [path, Sha3_512Kernel.new, Sha3_512Kernel.with_config, PerformanceConfig.default]
    refine .foldlM (fun results m => ?_) chunk results
    refine (calls_hash p (k := .new p) holds_new.inv m).costs fun r => ?_
    rw [hpath]
    exact .ret (List.append_nil _)

theorem calls_hash_many (k : Sha3_512Kernel) (messages : List (Slice U8)) :
    Calls (k.hash_many_observed p messages) (fun _ t =>
      t = (chunks (max (batchWidth p k.config) 1) messages).flatMap (chunkPermutations (batchWidth p k.config))) := by
  have hwidth : Calls (k.width_observed p) (fun width t => width = batchWidth p k.config ∧ t = []) := by
    unfold Sha3_512Kernel.width_observed batchWidth
    refine Calls.branch_then ?_
    split
    · exact .ret ⟨rfl, rfl⟩
    · refine Calls.branch_then ?_
      split
      · exact .ret ⟨rfl, rfl⟩
      · exact .ret ⟨rfl, rfl⟩
  unfold Sha3_512Kernel.hash_many_observed
  refine hwidth.bind ?_
  rintro _ _ ⟨rfl, rfl⟩
  exact .foldlM (calls_hash_chunk p _) _ _

theorem stands_pos {h : Hasher} (hk : Stands p h k) : k.state.pos = h.message.length % 72 := by
  rw [hk.sponge.pos]
  simp only [Buffered.feed, fresh, List.nil_append]
  rw [List.length_drop, Nat.mul_comm, ← Nat.mod_eq_sub]

theorem calls_update {h : Hasher} (hk : Stands p h k) (data : Slice U8) :
    Calls (k.update_observed p data) (fun _ t =>
      t = List.replicate ((h.message.length % 72 + data.len) / 72) (path p h.config.use_avx512)) := by
  unfold Sha3_512Kernel.update_observed
  rw [← stands_pos p hk, hk.config]
  exact (Sha3_512State.calls_absorb p _ data hk.sponge.inv).costs fun state => .ret (List.append_nil _)

theorem calls_finalize {h : Hasher} (hk : Stands p h k) :
    Calls (k.finalize_observed p) (fun _ t => t = [path p h.config.use_avx512]) := by
  unfold Sha3_512Kernel.finalize_observed
  rw [hk.config]
  exact (Sha3_512State.calls_finalize p _ k.state).costs fun r => .ret rfl

/-- What a call runs, and what it leaves behind. -/
theorem calls_step {h : Hasher} (hk : Stands p h k) (op : Op) :
    Calls (step_observed p k op) (fun r t => Stands p (h.step p op).1 r.1 ∧ t = h.permutations p op) := by
  have hnext : Returns (step_observed p k op).value (fun r => Stands p (h.step p op).1 r.1) := by
    rw [value_step]
    exact (step_refines p hk op).mono fun r hr => hr.1
  refine Calls.and_value ?_ hnext
  have hinv := hk.sponge.inv
  have hhash := fun data => hk.config ▸ calls_hash p hinv data
  cases op with
  | update data =>
    exact (calls_update p hk data).costs fun k' => .ret (List.append_nil _)
  | finalize =>
    exact (calls_finalize p hk).costs fun r => .ret rfl
  | finalize_digest =>
    exact (calls_finalize p hk).costs fun r => .ret rfl
  | hash data =>
    exact (hhash data).costs fun r => .ret (List.append_nil _)
  | hash_digest data =>
    exact (hhash data).costs fun r => .ret (List.append_nil _)
  | hash_memory_region memory base_address size =>
    exact (hk.config ▸ calls_hash_memory_region p hinv memory base_address size).costs fun r => .ret (List.append_nil _)
  | hash_memory_regions memory regions =>
    exact (calls_hash_memory_regions p hk memory regions).costs fun r => .ret (List.append_nil _)
  | hash_many messages =>
    exact (hk.config ▸ calls_hash_many p k messages).costs fun r => .ret (List.append_nil _)
  | reset => exact .ret rfl
  | update_config config => exact .ret rfl
  | config => exact .ret rfl
  | simd_features => exact .ret rfl

end Calls

/-! ## Runs -/

/-- The permutations of a run that starts at the message of `h`. -/
def Hasher.schedule (p : Platform) (h : Hasher) (ops : List Op) : List Routine :=
  Observe.schedule (fun h op => (h.step p op).1) (Hasher.permutations p) h ops

theorem calls_run (p : Platform) (config : PerformanceConfig) (ops : List Op) :
    calls (run_observed p config ops).events = Hasher.schedule p ⟨[], config⟩ ops := by
  have hcalls : Calls (run_observed p config ops) (fun _ t => t = Hasher.schedule p ⟨[], config⟩ ops) :=
    Calls.run (Stands p) (fun h k op hk => calls_step p hk op) _ _ ops (stands_with_config p config)
  obtain ⟨r, hr, -⟩ := hasher_refines p config ops
  exact hcalls r (by rw [value_run_observed, hr])

/-- The pieces of a stream, and its end. -/
theorem schedule_stream (p : Platform) (h : Hasher) (pieces : List (Slice U8)) :
    h.schedule p (pieces.map .update ++ [.finalize]) =
      List.replicate ((h.message.length % 72 + (pieces.map Slice.len).sum) / 72 + 1) (path p h.config.use_avx512) := by
  induction pieces generalizing h with
  | nil =>
    have hzero : (h.message.length % 72 + 0) / 72 = 0 := Nat.div_eq_of_lt (Nat.mod_lt _ (by decide))
    rw [List.map_nil, List.map_nil, List.sum_nil, hzero]
    rfl
  | cons piece pieces ih =>
    have hnext := ih { h with message := h.message ++ piece.val }
    have hblocks : (h.message.length % 72 + piece.len) / 72 +
        (((h.message ++ piece.val).length % 72 + (pieces.map Slice.len).sum) / 72 + 1) =
          (h.message.length % 72 + (piece.len + (pieces.map Slice.len).sum)) / 72 + 1 := by
      rw [List.length_append, piece.val_length]
      omega
    rw [List.map_cons, List.map_cons, List.sum_cons, ← hblocks, ← List.replicate_append_replicate, ← hnext]
    rfl

/-- Which permutations run, how often and in which order, over any run of calls.
A message that is streamed costs its blocks, however it is split. -/
theorem permutation_schedule (p : Platform) (config : PerformanceConfig) :
    (∀ ops : List Op,
      calls (run_observed p config ops).events = Hasher.schedule p ⟨[], config⟩ ops) ∧
    ∀ pieces : List (Slice U8),
      calls (run_observed p config (pieces.map .update ++ [.finalize])).events =
        List.replicate ((pieces.map Slice.len).sum / 72 + 1) (path p config.use_avx512) := by
  refine ⟨calls_run p config, ?_⟩
  intro pieces
  rw [calls_run, schedule_stream, List.length_nil, Nat.zero_mod, Nat.zero_add]

end Sha3Kernel
