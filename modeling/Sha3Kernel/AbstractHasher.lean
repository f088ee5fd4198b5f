import Sha3Kernel.Calls
/-!
# The hasher without its sponge

A `Hasher` keeps a message where `Sha3_512Kernel` keeps a sponge. Each call is
one equation on the message, and the hasher answers every run of calls as the
model does, calls after a `finalize` that was not reset among them. So what a
run returns is settled by the bytes that the calls were handed: the platform,
the configuration and the memory around the regions do not show in it.
-/

namespace Sha3Kernel

open HashLib HashLib.Bits HashLib.Checked HashLib.Blocks

/-! ## The model -/

/-- The message the sponge stands for, and the configuration. -/
structure Hasher where
  message : List U8
  config : PerformanceConfig

/-- What the sponge stands for once `finalize` has absorbed the padding: the
padded message, and again the bytes that were waiting in the buffer. -/
def finalized (message : List U8) : List U8 := paddedMessage message ++ message.drop (message.length / 72 * 72)

namespace Hasher

/-- A refused size leaves the message alone. -/
def hash_memory_region (h : Hasher) (memory : Memory) (base_address : U64) (size : Nat) : Hasher × Sha3_512Hash :=
  if size = 0 ∨ size > MAX_HASH_SIZE then (h, Vector.replicate 64 0)
  else
    let bytes := (List.range size).map fun i => memory (base_address + BitVec.ofNat 64 i)
    ({ h with message := finalized bytes }, hashOf bytes)

/-- Every call, on the message alone. -/
def step (p : Platform) (h : Hasher) : Op → Hasher × Output
  | .reset => ({ h with message := [] }, .unit)
  | .update data => ({ h with message := h.message ++ data.val }, .unit)
  | .finalize => ({ h with message := finalized h.message }, .hash (hashOf h.message))
  | .finalize_digest => ({ h with message := finalized h.message }, .digest ⟨hashOf h.message⟩)
  | .hash data => ({ h with message := finalized data.val }, .hash (hashOf data.val))
  | .hash_digest data => ({ h with message := finalized data.val }, .digest ⟨hashOf data.val⟩)
  | .hash_memory_region memory base_address size =>
    let r := h.hash_memory_region memory base_address size
    (r.1, .hash r.2)
  | .hash_memory_regions memory regions =>
    let chosen := (regions.filter Sha3_512Kernel.eligible).map (regionBytes memory)
    ({ h with message := chosen.foldl (fun _ bytes => finalized bytes) h.message }, .hashes (chosen.map hashOf))
  | .hash_many messages => (h, .hashes (messages.map fun m => hashOf m.val))
  | .update_config config => ({ h with config }, .unit)
  | .config => (h, .config h.config)
  | .simd_features => (h, .simd_features (Sha3_512Kernel.detect_simd_features p))

/-- The calls of a list on a model that starts with no message. -/
def run (p : Platform) (config : PerformanceConfig) (ops : List Op) : Hasher × List Output :=
  Machine.modelRun (step p) ⟨[], config⟩ ops

end Hasher

/-! ## One call -/

/-- `k` is as good as a new hasher that was fed the message of `h`. -/
structure Stands (p : Platform) (h : Hasher) (k : Sha3_512Kernel) : Prop where
  sponge : Holds k.state (fresh.feed blockStep h.message)
  config : k.config = h.config
  features : k.features = Sha3_512Kernel.detect_simd_features p

/-- The sponge that `finalize` leaves behind, by feeding a new one. -/
theorem feed_finalized (message : List U8) :
    fresh.feed blockStep (finalized message) =
      { fresh.feed blockStep message with acc := finish (fresh.feed blockStep message) } := by
  generalize hb : fresh.feed blockStep message = b
  have htail : message.drop (message.length / 72 * 72) = b.tail := by
    rw [← hb]
    rfl
  have hlen : b.tail.length = message.length % 72 := by
    rw [← htail, List.length_drop, Nat.mul_comm, ← Nat.mod_eq_sub]
  have hfull : (b.tail ++ padTo b.tail.length).length = 72 := by
    have hlt := b.tail_lt
    rw [List.length_append, length_padTo]
    omega
  rw [finalized, paddedMessage, List.append_assoc, ← Buffered.feed_append, hb, ← hlen, ← Buffered.feed_append,
    Buffered.feed_full blockStep b hfull, htail, Buffered.feed_short _ _ (by simpa using b.tail_lt)]
  rfl

section Step
variable (p : Platform) {h : Hasher} {k : Sha3_512Kernel}

theorem stands_with_config (config : PerformanceConfig) : Stands p ⟨[], config⟩ (.with_config p config) where
  sponge := by rw [Buffered.feed_nil]; exact holds_new
  config := rfl
  features := rfl

theorem update_stands (hk : Stands p h k) (data : Slice U8) :
    Returns (k.update p data) (Stands p { h with message := h.message ++ data.val }) := by
  unfold Sha3_512Kernel.update
  refine (absorb_spec p k.config.use_avx512 data hk.sponge).bind ?_
  intro state hstate
  rw [Buffered.feed_append] at hstate
  exact .ret ⟨hstate, hk.config, hk.features⟩

theorem finalize_stands (hk : Stands p h k) :
    Returns (k.finalize p) (fun r =>
      Stands p { h with message := finalized h.message } r.1 ∧ r.2 = hashOf h.message) := by
  unfold Sha3_512Kernel.finalize
  refine (finalize_spec p k.config.use_avx512 hk.sponge).bind ?_
  rintro ⟨state, hash⟩ ⟨hstate, rfl⟩
  rw [← feed_finalized] at hstate
  exact .ret ⟨⟨hstate, hk.config, hk.features⟩, finish_feed h.message⟩

theorem finalize_digest_stands (hk : Stands p h k) :
    Returns (k.finalize_digest p) (fun r =>
      Stands p { h with message := finalized h.message } r.1 ∧ r.2 = ⟨hashOf h.message⟩) := by
  unfold Sha3_512Kernel.finalize_digest
  refine (finalize_stands p hk).bind ?_
  rintro ⟨k', hash⟩ ⟨hk', rfl⟩
  exact .ret ⟨hk', rfl⟩

/-- `hash` is a reset, an update and a finalize. -/
theorem hash_eq (k : Sha3_512Kernel) (data : Slice U8) :
    k.hash p data = k.reset.update p data >>= fun k => k.finalize p := by
  unfold Sha3_512Kernel.hash Sha3_512Kernel.update Sha3_512Kernel.finalize
  rw [bind_assoc]
  rfl

theorem reset_stands (hk : Stands p h k) : Stands p { h with message := [] } k.reset where
  sponge := by rw [Buffered.feed_nil]; exact holds_reset hk.sponge.rate
  config := hk.config
  features := hk.features

theorem hash_stands (hk : Stands p h k) (data : Slice U8) :
    Returns (k.hash p data) (fun r =>
      Stands p { h with message := finalized data.val } r.1 ∧ r.2 = hashOf data.val) := by
  rw [hash_eq]
  refine (update_stands p (reset_stands p hk) data).bind ?_
  intro k' hk'
  exact finalize_stands p hk'

theorem hash_digest_stands (hk : Stands p h k) (data : Slice U8) :
    Returns (k.hash_digest p data) (fun r =>
      Stands p { h with message := finalized data.val } r.1 ∧ r.2 = ⟨hashOf data.val⟩) := by
  unfold Sha3_512Kernel.hash_digest
  refine (hash_stands p hk data).bind ?_
  rintro ⟨k', hash⟩ ⟨hk', rfl⟩
  exact .ret ⟨hk', rfl⟩

theorem hash_memory_region_stands (hk : Stands p h k) (memory : Memory) (base_address : U64) (size : Nat) :
    Returns (k.hash_memory_region p memory base_address size) (fun r =>
      Stands p (h.hash_memory_region memory base_address size).1 r.1 ∧
        r.2 = (h.hash_memory_region memory base_address size).2) := by
  unfold Hasher.hash_memory_region
  by_cases hsize : size = 0 ∨ size > MAX_HASH_SIZE
  · rw [hash_memory_region_refused p memory k base_address hsize, if_pos hsize]
    exact .ret ⟨hk, rfl⟩
  · unfold Sha3_512Kernel.hash_memory_region
    rw [dif_neg hsize, if_neg hsize]
    exact hash_stands p hk _

/-- Over eligible regions the model ends with the last one. -/
theorem modelRun_eligible (memory : Memory) (h : Hasher) {regions : List MemoryRegion}
    (heligible : ∀ region ∈ regions, Sha3_512Kernel.eligible region = true) :
    Machine.modelRun (fun h region => h.hash_memory_region memory region.base_address region.size) h regions =
      ({ h with message := (regions.map (regionBytes memory)).foldl (fun _ bytes => finalized bytes) h.message },
        (regions.map (regionBytes memory)).map hashOf) := by
  induction regions generalizing h with
  | nil => rfl
  | cons region regions ih =>
    have hsize : ¬(region.size = 0 ∨ region.size > MAX_HASH_SIZE) := by
      have hregion := heligible region List.mem_cons_self
      simp only [Sha3_512Kernel.eligible, Bool.and_eq_true, decide_eq_true_eq] at hregion
      omega
    have hfirst : h.hash_memory_region memory region.base_address region.size =
        ({ h with message := finalized (regionBytes memory region) }, hashOf (regionBytes memory region)) :=
      if_neg hsize
    unfold Machine.modelRun
    rw [hfirst, ih _ fun r hr => heligible r (List.mem_cons_of_mem _ hr)]
    rfl

theorem hash_memory_regions_stands (hk : Stands p h k) (memory : Memory) (regions : List MemoryRegion) :
    Returns (k.hash_memory_regions p memory regions) (fun r =>
      Stands p (h.step p (.hash_memory_regions memory regions)).1 r.1 ∧
        Output.hashes r.2 = (h.step p (.hash_memory_regions memory regions)).2) := by
  have hrun := Machine.run_refines (Stands p)
    (fun h k region hk => hash_memory_region_stands p hk memory region.base_address region.size) h k
    (regions.filter Sha3_512Kernel.eligible) hk
  rw [modelRun_eligible memory h fun region hregion => (List.mem_filter.1 hregion).2] at hrun
  refine hrun.mono ?_
  rintro r ⟨hr, houts⟩
  exact ⟨hr, congrArg Output.hashes houts⟩

/-- The hasher answers a call as the model does. -/
theorem step_refines (hk : Stands p h k) (op : Op) :
    Returns (Sha3Kernel.step p k op) (fun r => Stands p (h.step p op).1 r.1 ∧ r.2 = (h.step p op).2) := by
  cases op with
  | reset => exact .ret ⟨reset_stands p hk, rfl⟩
  | update data =>
    refine (update_stands p hk data).bind ?_
    intro k' hk'
    exact .ret ⟨hk', rfl⟩
  | finalize =>
    refine (finalize_stands p hk).bind ?_
    rintro ⟨k', hash⟩ ⟨hk', rfl⟩
    exact .ret ⟨hk', rfl⟩
  | finalize_digest =>
    refine (finalize_digest_stands p hk).bind ?_
    rintro ⟨k', digest⟩ ⟨hk', rfl⟩
    exact .ret ⟨hk', rfl⟩
  | hash data =>
    refine (hash_stands p hk data).bind ?_
    rintro ⟨k', hash⟩ ⟨hk', rfl⟩
    exact .ret ⟨hk', rfl⟩
  | hash_digest data =>
    refine (hash_digest_stands p hk data).bind ?_
    rintro ⟨k', digest⟩ ⟨hk', rfl⟩
    exact .ret ⟨hk', rfl⟩
  | hash_memory_region memory base_address size =>
    refine (hash_memory_region_stands p hk memory base_address size).bind ?_
    rintro ⟨k', hash⟩ ⟨hk', rfl⟩
    exact .ret ⟨hk', rfl⟩
  | hash_memory_regions memory regions =>
    refine (hash_memory_regions_stands p hk memory regions).bind ?_
    rintro ⟨k', hashes⟩ ⟨hk', hhashes⟩
    exact .ret ⟨hk', hhashes⟩
  | hash_many messages =>
    unfold Sha3Kernel.step
    dsimp only
    rw [hash_many_eq]
    exact .ret ⟨hk, rfl⟩
  | update_config config => exact .ret ⟨⟨hk.sponge, rfl, hk.features⟩, rfl⟩
  | config => exact .ret ⟨hk, congrArg Output.config hk.config⟩
  | simd_features => exact .ret ⟨hk, congrArg Output.simd_features hk.features⟩

end Step

/-! ## Whole runs -/

/-- Any calls, misuse included: the hasher returns what the model returns, call
for call, and its sponge is that of a new hasher fed the message of the model. -/
theorem hasher_refines (p : Platform) (config : PerformanceConfig) (ops : List Op) :
    Returns (run p config ops) (fun r =>
      r.2 = (Hasher.run p config ops).2 ∧ Stands p (Hasher.run p config ops).1 r.1) := by
  refine (Machine.run_refines (Stands p) (fun h k op hk => step_refines p hk op) _ _ ops
    (stands_with_config p config)).mono ?_
  rintro r ⟨hr, houts⟩
  exact ⟨houts, hr⟩

/-! ## Two runs -/

/-- Calls that are handed the same bytes: the configuration may differ, and so
may the memory at the addresses that no region reads. -/
inductive Alike : Op → Op → Prop where
  | same (op : Op) : Alike op op
  | update_config (config config' : PerformanceConfig) : Alike (.update_config config) (.update_config config')
  | hash_memory_region {memory memory' : Memory} {base_address : U64} {size : Nat}
      (h : size ≤ MAX_HASH_SIZE → ∀ i < size,
        memory (base_address + BitVec.ofNat 64 i) = memory' (base_address + BitVec.ofNat 64 i)) :
      Alike (.hash_memory_region memory base_address size) (.hash_memory_region memory' base_address size)
  | hash_memory_regions {memory memory' : Memory} {regions : List MemoryRegion}
      (h : ∀ region ∈ regions, Sha3_512Kernel.eligible region = true →
        regionBytes memory region = regionBytes memory' region) :
      Alike (.hash_memory_regions memory regions) (.hash_memory_regions memory' regions)

/-- The same answer, unless the call asked for the configuration or the features. -/
inductive SameAnswer : Output → Output → Prop where
  | same (out : Output) : SameAnswer out out
  | config (config config' : PerformanceConfig) : SameAnswer (.config config) (.config config')
  | simd_features (features features' : SimdFeatures) :
      SameAnswer (.simd_features features) (.simd_features features')

/-- Calls that are alike keep equal messages equal. -/
theorem step_alike (p p' : Platform) {h h' : Hasher} {op op' : Op} (hmessage : h.message = h'.message)
    (hop : Alike op op') :
    (h.step p op).1.message = (h'.step p' op').1.message ∧ SameAnswer (h.step p op).2 (h'.step p' op').2 := by
  obtain ⟨message, config⟩ := h
  obtain ⟨message', config'⟩ := h'
  obtain rfl : message = message' := hmessage
  cases hop with
  | same =>
    cases op with
    | config => exact ⟨rfl, .config _ _⟩
    | simd_features => exact ⟨rfl, .simd_features _ _⟩
    | hash_memory_region memory base_address size =>
      simp only [Hasher.step, Hasher.hash_memory_region]
      split
      · exact ⟨rfl, .same _⟩
      · exact ⟨rfl, .same _⟩
    | _ => exact ⟨rfl, .same _⟩
  | update_config => exact ⟨rfl, .same _⟩
  | @hash_memory_region memory memory' base_address size hmem =>
    simp only [Hasher.step, Hasher.hash_memory_region]
    split
    · exact ⟨rfl, .same _⟩
    · -- the size is accepted, so the bytes of the range are read and agree
      rename_i hsize
      have hbytes : ((List.range size).map fun i => memory (base_address + BitVec.ofNat 64 i)) =
          (List.range size).map fun i => memory' (base_address + BitVec.ofNat 64 i) := by
        refine List.map_congr_left fun i hi => hmem (by omega) i (List.mem_range.1 hi)
      rw [hbytes]
      exact ⟨rfl, .same _⟩
  | @hash_memory_regions memory memory' regions hmem =>
    have hchosen : (regions.filter Sha3_512Kernel.eligible).map (regionBytes memory) =
        (regions.filter Sha3_512Kernel.eligible).map (regionBytes memory') := by
      refine List.map_congr_left fun region hregion => ?_
      obtain ⟨hmem', helig⟩ := List.mem_filter.1 hregion
      exact hmem region hmem' helig
    simp only [Hasher.step, hchosen]
    exact ⟨trivial, .same _⟩

/-- Which permutation runs and what lies around the regions never shows: on any
two platforms, with any configurations, runs of calls that are alike return the
same digests, call for call. -/
theorem runs_agree (p p' : Platform) (config config' : PerformanceConfig) {ops ops' : List Op}
    (hops : List.Forall₂ Alike ops ops') :
    Returns (run p config ops) (fun r =>
      Returns (run p' config' ops') (fun r' => List.Forall₂ SameAnswer r.2 r'.2)) := by
  refine (hasher_refines p config ops).mono ?_
  rintro r ⟨houts, -⟩
  refine (hasher_refines p' config' ops').mono ?_
  rintro r' ⟨houts', -⟩
  rw [houts, houts']
  exact Machine.modelRun_related (R := fun h h' => h.message = h'.message)
    (fun h h' op op' hmessage hop => step_alike p p' hmessage hop) rfl hops

/-- A build without vector code and a CPU with all of it, memories that differ
around the region, and different flags on the way. -/
theorem runs_agree_everywhere :
    let narrow : Platform := ⟨false, false, false, false, false, false, false⟩
    let wide : Platform := ⟨true, true, true, true, true, true, true⟩
    let flags := { PerformanceConfig.default with use_avx512 := true }
    let ops (memory : Memory) (config : PerformanceConfig) : List Op :=
      [.update ⟨[1, 2], by decide⟩, .hash_memory_region memory 5 1, .update_config config, .finalize]
    Returns (run narrow .default (ops (fun a => if a = 5 then 7 else 0) .default)) (fun r =>
      Returns (run wide flags (ops (fun a => if a = 5 then 7 else 9) flags)) (fun r' =>
        List.Forall₂ SameAnswer r.2 r'.2)) := by
  refine runs_agree _ _ _ _ (.cons (.same _) (.cons (.hash_memory_region ?_) (.cons (.update_config _ _)
    (.cons (.same _) .nil))))
  rintro - i hi
  obtain rfl : i = 0 := by omega
  rfl

end Sha3Kernel
