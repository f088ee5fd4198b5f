import Sha3Kernel.HashLib.Machine
import Sha3Kernel.SpongeBits
/-!
# The hasher (`Sha3_512Kernel` in `lib.rs`)

One sponge, the features found at construction and a configuration. A value of
`Memory` is what a call that takes raw addresses finds there; the caller
promises that the region is readable, so every address has a byte.
-/

namespace Sha3Kernel

open HashLib HashLib.Bits HashLib.Checked HashLib.Blocks

structure SimdFeatures where
  avx512_available : Bool
  avx2_available : Bool
  sse42_available : Bool
  bmi2_available : Bool
  deriving DecidableEq, Repr

structure PerformanceConfig where
  use_avx512 : Bool
  use_avx2 : Bool
  prefetch_data : Bool
  parallel_chunks : Bool
  chunk_size : Nat
  deriving DecidableEq, Repr

def PerformanceConfig.default : PerformanceConfig where
  use_avx512 := false
  use_avx2 := true
  prefetch_data := true
  parallel_chunks := true
  chunk_size := 1024

structure Sha3_512Kernel where
  state : Sha3_512State
  features : SimdFeatures
  config : PerformanceConfig
  deriving DecidableEq

/-- A digest with its formatting traits. -/
structure Sha3Digest where
  bytes : Sha3_512Hash
  deriving DecidableEq

structure MemoryRegion where
  base_address : U64
  size : Nat
  is_readable : Bool
  is_writable : Bool
  is_executable : Bool
  deriving DecidableEq

def MAX_HASH_SIZE : Nat := 256 * 1024 * 1024

abbrev Memory := U64 → U8

/-- `slice::from_raw_parts(base_address, size)` -/
def from_raw_parts (memory : Memory) (base_address : U64) (size : Nat) (h : size ≤ isizeMax) : Slice U8 where
  val := (List.range size).map fun i => memory (base_address + BitVec.ofNat 64 i)
  len_le := by simpa using h

/-! ## The calls -/

namespace Sha3_512Kernel

/-- Everything is off where the vector modules are compiled out. -/
def detect_simd_features (p : Platform) : SimdFeatures :=
  if p.std_x86_64 then
    { avx512_available := p.avx512f && p.avx512bw && p.avx512dq
      avx2_available := p.avx2 && p.bmi2
      sse42_available := p.sse42
      bmi2_available := p.bmi2 }
  else
    { avx512_available := false
      avx2_available := false
      sse42_available := false
      bmi2_available := false }

def with_config (p : Platform) (config : PerformanceConfig) : Sha3_512Kernel where
  state := .new
  features := detect_simd_features p
  config := config

def new (p : Platform) : Sha3_512Kernel := with_config p .default

def hash (p : Platform) (self : Sha3_512Kernel) (data : Slice U8) : Result (Sha3_512Kernel × Sha3_512Hash) := do
  let state := self.state.reset
  let state ← state.absorb p data self.config.use_avx512
  let (state, hash) ← state.finalize p self.config.use_avx512
  pure ({ self with state }, hash)

def hash_memory_region (p : Platform) (memory : Memory) (self : Sha3_512Kernel) (base_address : U64) (size : Nat) :
    Result (Sha3_512Kernel × Sha3_512Hash) :=
  if h : size = 0 ∨ size > MAX_HASH_SIZE then pure (self, Vector.replicate 64 0)
  else
    let memory_slice := from_raw_parts memory base_address size (by simp only [MAX_HASH_SIZE, isizeMax] at *; omega)
    self.hash p memory_slice

/-- The regions that `hash_memory_regions` does not skip. -/
def eligible (r : MemoryRegion) : Bool := r.is_readable && decide (r.size > 0) && decide (r.size ≤ MAX_HASH_SIZE)

def hash_memory_regions (p : Platform) (memory : Memory) (self : Sha3_512Kernel) (regions : List MemoryRegion) :
    Result (Sha3_512Kernel × List Sha3_512Hash) :=
  Machine.run (fun self region => self.hash_memory_region p memory region.base_address region.size) self
    (regions.filter eligible)

def simd_features (self : Sha3_512Kernel) : SimdFeatures := self.features

def update_config (self : Sha3_512Kernel) (config : PerformanceConfig) : Sha3_512Kernel := { self with config }

def hash_digest (p : Platform) (self : Sha3_512Kernel) (data : Slice U8) : Result (Sha3_512Kernel × Sha3Digest) := do
  let (self, hash) ← self.hash p data
  pure (self, ⟨hash⟩)

def finalize (p : Platform) (self : Sha3_512Kernel) : Result (Sha3_512Kernel × Sha3_512Hash) := do
  let (state, hash) ← self.state.finalize p self.config.use_avx512
  pure ({ self with state }, hash)

def finalize_digest (p : Platform) (self : Sha3_512Kernel) : Result (Sha3_512Kernel × Sha3Digest) := do
  let (self, hash) ← self.finalize p
  pure (self, ⟨hash⟩)

def reset (self : Sha3_512Kernel) : Sha3_512Kernel := { self with state := self.state.reset }

def update (p : Platform) (self : Sha3_512Kernel) (data : Slice U8) : Result Sha3_512Kernel := do
  let state ← self.state.absorb p data self.config.use_avx512
  pure { self with state }

end Sha3_512Kernel

/-! ## What each call does to the sponge and returns -/

section Specs
variable (p : Platform) {k : Sha3_512Kernel} {b : Consumer}

theorem update_spec (h : Holds k.state b) (data : Slice U8) :
    Returns (k.update p data) (fun k' => Holds k'.state (b.feed blockStep data.val)) := by
  unfold Sha3_512Kernel.update
  refine (absorb_spec p k.config.use_avx512 data h).bind ?_
  rintro state hstate
  exact .ret hstate

theorem kernel_finalize_spec (h : Holds k.state b) :
    Returns (k.finalize p) (fun r => Inv r.1.state ∧ r.2 = digest (finish b)) := by
  unfold Sha3_512Kernel.finalize
  refine (finalize_spec p k.config.use_avx512 h).bind ?_
  rintro ⟨state, hash⟩ ⟨hstate, rfl⟩
  exact .ret ⟨hstate.inv, rfl⟩

/-- Whatever the sponge held, `hash` starts from zero. -/
theorem hash_spec (h : Inv k.state) (data : Slice U8) :
    Returns (k.hash p data) (fun r => Inv r.1.state ∧ r.2 = hashOf data.val) := by
  unfold Sha3_512Kernel.hash
  refine (absorb_spec p k.config.use_avx512 data (holds_reset h.rate)).bind ?_
  rintro state hstate
  refine (finalize_spec p k.config.use_avx512 hstate).bind ?_
  rintro ⟨state', hash⟩ ⟨hstate', rfl⟩
  exact .ret ⟨hstate'.inv, finish_feed data.val⟩

theorem hash_digest_spec (h : Inv k.state) (data : Slice U8) :
    Returns (k.hash_digest p data) (fun r => Inv r.1.state ∧ r.2 = ⟨hashOf data.val⟩) := by
  unfold Sha3_512Kernel.hash_digest
  refine (hash_spec p h data).bind ?_
  rintro ⟨k', hash⟩ ⟨hinv, rfl⟩
  exact .ret ⟨hinv, rfl⟩

/-- What `hash_memory_region` returns: the digest of the bytes at the address, or
zeros for a size it refuses. -/
def regionDigest (memory : Memory) (base_address : U64) (size : Nat) : Sha3_512Hash :=
  if size = 0 ∨ size > MAX_HASH_SIZE then Vector.replicate 64 0
  else hashOf ((List.range size).map fun i => memory (base_address + BitVec.ofNat 64 i))

theorem hash_memory_region_spec (memory : Memory) (h : Inv k.state) (base_address : U64) (size : Nat) :
    Returns (k.hash_memory_region p memory base_address size) (fun r =>
      Inv r.1.state ∧ r.2 = regionDigest memory base_address size) := by
  unfold Sha3_512Kernel.hash_memory_region regionDigest
  by_cases hsize : size = 0 ∨ size > MAX_HASH_SIZE
  · rw [dif_pos hsize, if_pos hsize]
    exact .ret ⟨h, rfl⟩
  · rw [dif_neg hsize, if_neg hsize]
    exact hash_spec p h _

/-- A refused size leaves the hasher alone. -/
theorem hash_memory_region_refused (memory : Memory) (k : Sha3_512Kernel) (base_address : U64) {size : Nat}
    (h : size = 0 ∨ size > MAX_HASH_SIZE) :
    k.hash_memory_region p memory base_address size = .ok (k, Vector.replicate 64 0) := by
  unfold Sha3_512Kernel.hash_memory_region
  rw [dif_pos h]
  rfl

/-- Every region that is not skipped is hashed, in order. -/
theorem hash_memory_regions_spec (memory : Memory) (h : Inv k.state) (regions : List MemoryRegion) :
    Returns (k.hash_memory_regions p memory regions) (fun r =>
      Inv r.1.state ∧ r.2 = (regions.filter Sha3_512Kernel.eligible).map fun region =>
        regionDigest memory region.base_address region.size) := by
  unfold Sha3_512Kernel.hash_memory_regions
  -- the ghost state is trivial: each digest depends on its own region only
  refine (Machine.run_spec (fun (u : Unit) _ => u) (fun _ k => Inv k.state)
    (fun _ region out => out = regionDigest memory region.base_address region.size)
    (fun _ k region h => hash_memory_region_spec p memory h region.base_address region.size) () k _ h).mono ?_
  rintro r ⟨hinv, houts⟩
  exact ⟨hinv, houts.eq_map⟩

end Specs

end Sha3Kernel
