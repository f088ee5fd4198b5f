import Sha3Kernel.AbstractHasher
import Sha3Kernel.AnyRate
/-!
# What a hasher leaves in memory

The buffer of a sponge is larger than a block and is not cleared between blocks. The
bytes behind the rate stay as they are in `absorb` and `finalize`, and `reset` makes
them zero, so no byte of a message gets there. `finalize` leaves its last block in
front of them, and `reset` takes the whole hasher back to a new one.
-/

namespace Sha3Kernel

open HashLib HashLib.Bits HashLib.Checked HashLib.Blocks

/-! ## Behind the rate -/

namespace Sha3_512State

/-- From `s` to `s'` the bytes behind the rate are unchanged. -/
structure Frame (s s' : Sha3_512State) : Prop where
  rate : s'.rate = s.rate
  behind : s'.buffer.toList.drop s.rate = s.buffer.toList.drop s.rate

namespace Frame
variable {s s' s'' : Sha3_512State}

theorem refl (s : Sha3_512State) : Frame s s := ⟨rfl, rfl⟩

theorem trans (h : Frame s s') (h' : Frame s' s'') : Frame s s'' := by
  refine ⟨h'.rate.trans h.rate, ?_⟩
  have hbehind := h'.behind
  rw [h.rate] at hbehind
  exact hbehind.trans h.behind

end Frame

theorem xor_block_frame (s : Sha3_512State) : Yields s.xor_block_into_state (Frame s) := by
  unfold xor_block_into_state
  apply (Ends.any _).bind
  intro state _
  exact ⟨rfl, rfl⟩

section Calls
variable (p : Platform) (use_avx512 : Bool) {s : Sha3_512State} (data : Slice U8)

theorem absorb_fill_frame (s : Sha3_512State) : Yields (s.absorb_fill p data use_avx512) (fun st => Frame s st.1) := by
  unfold absorb_fill
  split
  · apply (usize_sub_yields _ _).bind
    intro remaining hremaining
    obtain ⟨hle, rfl⟩ := hremaining
    apply (Ends.any _).bind
    intro src _
    apply (usize_add_yields _ _).bind
    intro pos hpos
    have hend : pos ≤ s.rate := by omega
    apply (copy_behind s.buffer src hend).bind
    intro buffer hbuffer
    have hcopied : Frame s { s with buffer, pos } := ⟨rfl, hbuffer⟩
    apply (Ends.any _).bind
    intro offset _
    dsimp only
    split
    · apply (xor_block_frame _).bind
      intro s' hs'
      have hxored := hcopied.trans hs'
      exact ⟨hxored.rate, hxored.behind⟩
    · exact hcopied
  · exact .refl s

theorem absorb_block_frame (st : Sha3_512State × Nat) (h : Frame s st.1) :
    Yields (absorb_block p data use_avx512 st)
      (Flow.Post (fun st' => Frame s st'.1) (fun st' => Frame s st'.1 ∧ data.len < st'.2 + s.rate)) := by
  obtain ⟨s', offset⟩ := st
  unfold absorb_block
  apply (usize_add_yields _ _).bind
  intro block_end hend
  split
  · apply (Ends.any _).bind
    intro block _
    apply (Ends.any _).bind
    intro state _
    apply (Ends.any _).bind
    intro offset' _
    exact ⟨h.rate, h.behind⟩
  · have hrate : s'.rate = s.rate := h.rate
    exact ⟨h, by dsimp only; omega⟩

theorem absorb_tail_frame (s' : Sha3_512State) (offset : Nat) (h : Frame s s') (hshort : data.len < offset + s.rate) :
    Yields (s'.absorb_tail data offset) (Frame s) := by
  unfold absorb_tail
  apply (usize_sub_yields _ _).bind
  intro tail htail
  obtain ⟨hle, rfl⟩ := htail
  split
  · apply (Ends.any _).bind
    intro src _
    have hend : data.len - offset ≤ s'.rate := by
      rw [h.rate]
      omega
    apply (copy_behind s'.buffer src hend).bind
    intro buffer hbuffer
    have hcopied : Frame s' { s' with buffer, pos := data.len - offset } := ⟨rfl, hbuffer⟩
    exact h.trans hcopied
  · exact h

/-- Whatever `pos` and `rate` are. -/
theorem absorb_frame (s : Sha3_512State) : Yields (s.absorb p data use_avx512) (Frame s) := by
  unfold absorb
  apply (absorb_fill_frame p use_avx512 data s).bind
  intro st hst
  apply (loop_yields (absorb_block_frame p use_avx512 data) _ hst).bind
  intro st' hst'
  exact absorb_tail_frame data st'.1 st'.2 hst'.1 hst'.2

theorem finalize_frame (h : s.pos < s.rate) : Yields (s.finalize p use_avx512) (fun r => Frame s r.1) := by
  have hclear : Yields (forRange s.pos s.rate (fun i buffer => store buffer i 0) s.buffer)
      (fun buffer => buffer.toList.drop s.rate = s.buffer.toList.drop s.rate) := by
    refine foldlM_yields (fun buffer i hi hbuffer => ?_) rfl
    have hlt : i < s.rate := by
      have hmem := List.mem_range'_1.1 hi
      omega
    exact (store_behind buffer 0 hlt).mono fun _ hstored => hstored.trans hbuffer
  unfold finalize
  apply hclear.bind
  intro cleared hcleared
  apply (store_behind cleared _ h).bind
  intro marked hmarked
  apply (usize_sub_yields _ _).bind
  intro last hlast
  have hlt : last < s.rate := by omega
  apply (Ends.any _).bind
  intro byte _
  apply (store_behind marked _ hlt).bind
  intro padded hpadded
  have hframe : Frame s { s with buffer := padded } := ⟨rfl, hpadded.trans (hmarked.trans hcleared)⟩
  apply (xor_block_frame _).bind
  intro s' hs'
  apply (Ends.any _).bind
  intro hash _
  have hxored := hframe.trans hs'
  exact ⟨hxored.rate, hxored.behind⟩

end Calls

end Sha3_512State

/-- `finalize` leaves its last block in front of what lies behind the rate. -/
theorem finalize_leaves (p : Platform) (use_avx512 : Bool) {s : Sha3_512State} (hs : Fits s) (h : s.pos < s.rate) :
    Returns (s.finalize p use_avx512) (fun r =>
      r.1.buffer.toList = lastBlock s.rate s.live ++ s.buffer.toList.drop s.rate) := by
  apply ((finalize_finalizes p use_avx512 hs).and_yields (s.finalize_frame p use_avx512 h)).mono
  intro r hr
  obtain ⟨hfinal, hframe⟩ := hr
  rw [← List.take_append_drop s.rate r.1.buffer.toList, hfinal.block, hframe.behind]

/-! ## The hasher -/

/-- `k` stands for the message of `h`, and the end of its buffer is zero. -/
structure Clean (p : Platform) (h : Hasher) (k : Sha3_512Kernel) : Prop extends Stands p h k where
  behind : k.state.buffer.toList.drop 72 = List.replicate 128 0

section Clean
variable (p : Platform) {h : Hasher} {k : Sha3_512Kernel}

theorem clean_with_config (config : PerformanceConfig) : Clean p ⟨[], config⟩ (.with_config p config) where
  toStands := stands_with_config p config
  behind := rfl

theorem reset_clean (hk : Clean p h k) : Clean p { h with message := [] } k.reset where
  toStands := reset_stands p hk.toStands
  behind := rfl

theorem frame_clean {h' : Hasher} {k' : Sha3_512Kernel} (hk : Clean p h k) (hk' : Stands p h' k')
    (hframe : k.state.Frame k'.state) : Clean p h' k' where
  toStands := hk'
  behind := by
    have hbehind := hframe.behind
    rw [hk.sponge.rate] at hbehind
    exact hbehind.trans hk.behind

theorem update_clean (hk : Clean p h k) (data : Slice U8) :
    Returns (k.update p data) (Clean p { h with message := h.message ++ data.val }) := by
  have hframe : Yields (k.update p data) (fun k' => k.state.Frame k'.state) := by
    apply (k.state.absorb_frame p k.config.use_avx512 data).bind
    intro state hstate
    exact hstate
  apply ((update_stands p hk.toStands data).and_yields hframe).mono
  intro k' hk'
  exact frame_clean p hk hk'.1 hk'.2

theorem finalize_clean (hk : Clean p h k) :
    Returns (k.finalize p) (fun r =>
      Clean p { h with message := finalized h.message } r.1 ∧ r.2 = hashOf h.message) := by
  have hpos : k.state.pos < k.state.rate := by
    rw [hk.sponge.rate]
    exact hk.sponge.inv.pos
  have hframe : Yields (k.finalize p) (fun r => k.state.Frame r.1.state) := by
    apply (k.state.finalize_frame p k.config.use_avx512 hpos).bind
    intro r hr
    exact hr
  apply ((finalize_stands p hk.toStands).and_yields hframe).mono
  intro r hr
  obtain ⟨⟨hstands, hhash⟩, hkept⟩ := hr
  exact ⟨frame_clean p hk hstands hkept, hhash⟩

theorem hash_clean (hk : Clean p h k) (data : Slice U8) :
    Returns (k.hash p data) (fun r =>
      Clean p { h with message := finalized data.val } r.1 ∧ r.2 = hashOf data.val) := by
  rw [hash_eq]
  apply (update_clean p (reset_clean p hk) data).bind
  intro k' hk'
  exact finalize_clean p hk'

theorem hash_memory_region_clean (hk : Clean p h k) (memory : Memory) (base_address : U64) (size : Nat) :
    Returns (k.hash_memory_region p memory base_address size) (fun r =>
      Clean p (h.hash_memory_region memory base_address size).1 r.1 ∧
        r.2 = (h.hash_memory_region memory base_address size).2) := by
  unfold Hasher.hash_memory_region
  by_cases hsize : size = 0 ∨ size > MAX_HASH_SIZE
  · rw [hash_memory_region_refused p memory k base_address hsize, if_pos hsize]
    exact .ret ⟨hk, rfl⟩
  · unfold Sha3_512Kernel.hash_memory_region
    rw [dif_neg hsize, if_neg hsize]
    exact hash_clean p hk _

theorem hash_memory_regions_clean (hk : Clean p h k) (memory : Memory) (regions : List MemoryRegion) :
    Returns (k.hash_memory_regions p memory regions) (fun r =>
      Clean p (h.step p (.hash_memory_regions memory regions)).1 r.1) := by
  have hrun := Machine.run_refines (Clean p)
    (fun h k region hk => hash_memory_region_clean p hk memory region.base_address region.size) h k
    (regions.filter Sha3_512Kernel.eligible) hk
  rw [modelRun_eligible memory h fun region hregion => (List.mem_filter.1 hregion).2] at hrun
  exact hrun.mono fun r hr => hr.1

/-- Every call keeps the hasher clean. -/
theorem step_clean (hk : Clean p h k) (op : Op) :
    Returns (Sha3Kernel.step p k op) (fun r => Clean p (h.step p op).1 r.1) := by
  cases op with
  | reset => exact .ret (reset_clean p hk)
  | update data => exact (update_clean p hk data).bind fun k' hk' => .ret hk'
  | finalize => exact (finalize_clean p hk).bind fun r hr => .ret hr.1
  | finalize_digest =>
    have hdigest : Returns (k.finalize_digest p) (fun r => Clean p { h with message := finalized h.message } r.1) :=
      (finalize_clean p hk).bind fun r hr => .ret hr.1
    exact hdigest.bind fun r hr => .ret hr
  | hash data => exact (hash_clean p hk data).bind fun r hr => .ret hr.1
  | hash_digest data =>
    have hdigest : Returns (k.hash_digest p data) (fun r => Clean p { h with message := finalized data.val } r.1) :=
      (hash_clean p hk data).bind fun r hr => .ret hr.1
    exact hdigest.bind fun r hr => .ret hr
  | hash_memory_region memory base_address size =>
    exact (hash_memory_region_clean p hk memory base_address size).bind fun r hr => .ret hr.1
  | hash_memory_regions memory regions =>
    exact (hash_memory_regions_clean p hk memory regions).bind fun r hr => .ret hr
  | hash_many messages =>
    unfold Sha3Kernel.step
    dsimp only
    rw [hash_many_eq]
    exact .ret hk
  | update_config config => exact .ret ⟨⟨hk.sponge, rfl, hk.features⟩, hk.behind⟩
  | config => exact .ret hk
  | simd_features => exact .ret hk

theorem run_clean (config : PerformanceConfig) (ops : List Op) :
    Returns (run p config ops) (fun r => Clean p (Hasher.run p config ops).1 r.1) := by
  have hstep : ∀ h k op, Clean p h k → Returns (Sha3Kernel.step p k op) (fun r =>
      Clean p (h.step p op).1 r.1 ∧ r.2 = (h.step p op).2) := by
    intro h k op hk
    apply ((step_clean p hk op).and_yields (step_refines p hk.toStands op).ends).mono
    intro r hr
    exact ⟨hr.1, hr.2.2⟩
  have hrun := Machine.run_refines (Clean p) hstep _ _ ops (clean_with_config p config)
  exact hrun.mono fun r hr => hr.1

end Clean

/-! ## What is left -/

/-- The bytes of a message that wait for their block to fill. -/
def waiting (message : List U8) : List U8 := message.drop (message.length / 72 * 72)

theorem live_of_stands {p : Platform} {h : Hasher} {k : Sha3_512Kernel} (hk : Stands p h k) :
    k.state.live = waiting h.message := hk.sponge.live

/-- The last block that `finalize` pads is that of the padded message. -/
theorem lastBlock_waiting (message : List U8) :
    lastBlock 72 (waiting message) = (paddedMessage message).drop (message.length / 72 * 72) := by
  have hlen : (waiting message).length = message.length % 72 := by
    rw [waiting, List.length_drop, Nat.mul_comm, ← Nat.mod_eq_sub]
  have hle : message.length / 72 * 72 ≤ message.length := Nat.div_mul_le_self _ _
  rw [lastBlock_eq (by omega), hlen, paddedMessage, List.drop_append_of_le_length hle]
  rfl

/-- After any run of public calls: behind the rate the buffer is zero, and in front of
`pos` it holds the tail of the message that the hasher stands for. `finalize` leaves
the last padded block of that message in the buffer with zeros behind it, and no byte
of an earlier one. `reset` leaves a new hasher with the configuration in force, to the
last byte. -/
theorem residue_law (p : Platform) (config : PerformanceConfig) (ops : List Op) :
    Returns (run p config ops) (fun out =>
      let message := (Hasher.run p config ops).1.message
      out.1.state.live = waiting message ∧
      out.1.state.buffer.toList.drop 72 = List.replicate 128 0 ∧
      Returns (out.1.finalize p) (fun fin =>
        fin.1.state.buffer.toList =
          (paddedMessage message).drop (message.length / 72 * 72) ++ List.replicate 128 0) ∧
      out.1.reset = .with_config p out.1.config) := by
  apply (run_clean p config ops).mono
  intro out hk
  have hrate : out.1.state.rate = 72 := hk.sponge.rate
  have hpos : out.1.state.pos < 72 := hk.sponge.inv.pos
  have hlive := live_of_stands hk.toStands
  refine ⟨hlive, hk.behind, ?_, ?_⟩
  · apply (finalize_leaves p out.1.config.use_avx512 hk.sponge.inv.fits (by omega)).bind
    intro fin hfin
    refine .ret ?_
    dsimp only
    rw [hfin, hrate, hlive, hk.behind, lastBlock_waiting]
  · have hreset : out.1.state.reset = .new := by
      unfold Sha3_512State.reset Sha3_512State.new
      rw [hrate]
      rfl
    unfold Sha3_512Kernel.reset Sha3_512Kernel.with_config
    rw [hreset, ← hk.features]

end Sha3Kernel
