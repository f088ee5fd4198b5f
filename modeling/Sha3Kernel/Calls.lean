import Sha3Kernel.Batch
/-!
# Runs of public calls

Any calls on one hasher, in any order, with any data, from construction on.
`Tracks` follows what is pending, the bytes of the updates since the sponge was
last set to zero, through every call, or only the invariant once a call has
used the sponge up. `step_spec` is the one case analysis over the calls.
-/

namespace Sha3Kernel

open HashLib HashLib.Bits HashLib.Checked HashLib.Blocks

/-! ## The machine -/

/-- A public call. `memory` is what the addresses hold when the call is made. -/
inductive Op where
  | reset
  | update (data : Slice U8)
  | finalize
  | finalize_digest
  | hash (data : Slice U8)
  | hash_digest (data : Slice U8)
  | hash_memory_region (memory : Memory) (base_address : U64) (size : Nat)
  | hash_memory_regions (memory : Memory) (regions : List MemoryRegion)
  | hash_many (messages : List (Slice U8))
  | update_config (config : PerformanceConfig)
  | config
  | simd_features

/-- What a call returns. -/
inductive Output where
  | unit
  | hash (hash : Sha3_512Hash)
  | digest (digest : Sha3Digest)
  | hashes (hashes : List Sha3_512Hash)
  | config (config : PerformanceConfig)
  | simd_features (features : SimdFeatures)

def step (p : Platform) (k : Sha3_512Kernel) : Op → Result (Sha3_512Kernel × Output)
  | .reset => pure (k.reset, .unit)
  | .update data => do
    let k ← k.update p data
    pure (k, .unit)
  | .finalize => do
    let (k, hash) ← k.finalize p
    pure (k, .hash hash)
  | .finalize_digest => do
    let (k, digest) ← k.finalize_digest p
    pure (k, .digest digest)
  | .hash data => do
    let (k, hash) ← k.hash p data
    pure (k, .hash hash)
  | .hash_digest data => do
    let (k, digest) ← k.hash_digest p data
    pure (k, .digest digest)
  | .hash_memory_region memory base_address size => do
    let (k, hash) ← k.hash_memory_region p memory base_address size
    pure (k, .hash hash)
  | .hash_memory_regions memory regions => do
    let (k, hashes) ← k.hash_memory_regions p memory regions
    pure (k, .hashes hashes)
  | .hash_many messages => do
    let hashes ← k.hash_many p messages
    pure (k, .hashes hashes)
  | .update_config config => pure (k.update_config config, .unit)
  | .config => pure (k, .config k.config)
  | .simd_features => pure (k, .simd_features k.simd_features)

/-- Construct a hasher and make the calls. -/
def run (p : Platform) (config : PerformanceConfig) (ops : List Op) : Result (Sha3_512Kernel × List Output) :=
  Machine.run (step p) (.with_config p config) ops

/-! ## What is pending -/

/-- The bytes of the updates since construction or a reset, if no call since
then used the sponge up. -/
def pendingAfter (pending : Option (List U8)) : Op → Option (List U8)
  | .reset => some []
  | .update data => pending.map (· ++ data.val)
  | .finalize | .finalize_digest | .hash _ | .hash_digest _ => none
  | .hash_memory_region _ _ size => if size = 0 ∨ size > MAX_HASH_SIZE then pending else none
  | .hash_memory_regions _ regions => if regions.any Sha3_512Kernel.eligible then none else pending
  | .hash_many _ | .update_config _ | .config | .simd_features => pending

def pending (ops : List Op) : Option (List U8) := ops.foldl pendingAfter (some [])

/-- The sponge of `k` holds what is pending. -/
def Tracks : Option (List U8) → Sha3_512Kernel → Prop
  | some bytes, k => Holds k.state (fresh.feed blockStep bytes)
  | none, k => Inv k.state

theorem Tracks.inv {pending : Option (List U8)} {k : Sha3_512Kernel} (h : Tracks pending k) : Inv k.state := by
  cases pending with
  | none => exact h
  | some bytes => exact Holds.inv h

theorem tracks_fresh {k : Sha3_512Kernel} (h : Holds k.state fresh) : Tracks (some []) k := by
  rwa [Tracks, Buffered.feed_nil]

/-- What a call returns, from what was pending before it. -/
def Answer (pending : Option (List U8)) : Op → Output → Prop
  | .finalize, out => ∃ hash, out = .hash hash ∧ ∀ bytes, pending = some bytes → hash = hashOf bytes
  | .finalize_digest, out => ∃ hash, out = .digest ⟨hash⟩ ∧ ∀ bytes, pending = some bytes → hash = hashOf bytes
  | .hash data, out => out = .hash (hashOf data.val)
  | .hash_digest data, out => out = .digest ⟨hashOf data.val⟩
  | .hash_memory_region memory base_address size, out => out = .hash (regionDigest memory base_address size)
  | .hash_memory_regions memory regions, out =>
    out = .hashes ((regions.filter Sha3_512Kernel.eligible).map fun region =>
      regionDigest memory region.base_address region.size)
  | .hash_many messages, out => out = .hashes (messages.map fun m => hashOf m.val)
  | _, _ => True

section Step
variable (p : Platform) {pending : Option (List U8)} {k : Sha3_512Kernel}

theorem update_tracks (h : Tracks pending k) (data : Slice U8) :
    Returns (k.update p data) (Tracks (pendingAfter pending (.update data))) := by
  cases pending with
  | none =>
    -- used up: the sponge still holds something, which nobody asks about
    obtain ⟨b, hb⟩ := Inv.holds h
    refine (update_spec p hb data).mono ?_
    rintro k' hk'
    exact hk'.inv
  | some bytes =>
    refine (update_spec p h data).mono ?_
    rintro k' hk'
    rw [Buffered.feed_append] at hk'
    exact hk'

theorem finalize_tracks (h : Tracks pending k) :
    Returns (k.finalize p) (fun r => Inv r.1.state ∧ ∀ bytes, pending = some bytes → r.2 = hashOf bytes) := by
  obtain ⟨b, hb⟩ := h.inv.holds
  cases pending with
  | none =>
    refine (kernel_finalize_spec p hb).mono ?_
    rintro r ⟨hinv, -⟩
    exact ⟨hinv, fun bytes hbytes => nomatch hbytes⟩
  | some bytes =>
    refine (kernel_finalize_spec p h).mono ?_
    rintro r ⟨hinv, hr⟩
    refine ⟨hinv, ?_⟩
    rintro bytes' hbytes
    rw [hr, finish_feed, Option.some.inj hbytes]

theorem finalize_digest_tracks (h : Tracks pending k) :
    Returns (k.finalize_digest p) (fun r =>
      Inv r.1.state ∧ ∃ hash, r.2 = ⟨hash⟩ ∧ ∀ bytes, pending = some bytes → hash = hashOf bytes) := by
  unfold Sha3_512Kernel.finalize_digest
  refine (finalize_tracks p h).bind ?_
  rintro ⟨k', hash⟩ ⟨hinv, hhash⟩
  exact .ret ⟨hinv, hash, rfl, hhash⟩

/-- One call: what it leaves pending and what it returns. -/
theorem step_spec (op : Op) (h : Tracks pending k) :
    Returns (step p k op) (fun r => Tracks (pendingAfter pending op) r.1 ∧ Answer pending op r.2) := by
  cases op with
  | reset =>
    exact .ret ⟨tracks_fresh (holds_reset h.inv.rate), trivial⟩
  | update data =>
    refine (update_tracks p h data).bind ?_
    rintro k' hk'
    exact .ret ⟨hk', trivial⟩
  | finalize =>
    refine (finalize_tracks p h).bind ?_
    rintro ⟨k', hash⟩ ⟨hinv, hhash⟩
    exact .ret ⟨hinv, hash, rfl, hhash⟩
  | finalize_digest =>
    refine (finalize_digest_tracks p h).bind ?_
    rintro ⟨k', digest⟩ ⟨hinv, hash, rfl, hhash⟩
    exact .ret ⟨hinv, hash, rfl, hhash⟩
  | hash data =>
    refine (hash_spec p h.inv data).bind ?_
    rintro ⟨k', hash⟩ ⟨hinv, rfl⟩
    exact .ret ⟨hinv, rfl⟩
  | hash_digest data =>
    refine (hash_digest_spec p h.inv data).bind ?_
    rintro ⟨k', digest⟩ ⟨hinv, rfl⟩
    exact .ret ⟨hinv, rfl⟩
  | hash_memory_region memory base_address size =>
    unfold step pendingAfter
    dsimp only
    by_cases hsize : size = 0 ∨ size > MAX_HASH_SIZE
    · -- the size is refused before the sponge is touched
      rw [hash_memory_region_refused p memory k base_address hsize, if_pos hsize]
      refine .ret ⟨h, ?_⟩
      simp only [Answer, regionDigest, if_pos hsize]
    · rw [if_neg hsize]
      refine (hash_memory_region_spec p memory h.inv base_address size).bind ?_
      rintro ⟨k', hash⟩ ⟨hinv, rfl⟩
      exact .ret ⟨hinv, rfl⟩
  | hash_memory_regions memory regions =>
    unfold step pendingAfter
    dsimp only
    by_cases hany : regions.any Sha3_512Kernel.eligible = true
    · rw [if_pos hany]
      refine (hash_memory_regions_spec p memory h.inv regions).bind ?_
      rintro ⟨k', hashes⟩ ⟨hinv, rfl⟩
      exact .ret ⟨hinv, rfl⟩
    · -- every region is skipped
      have hnone : regions.filter Sha3_512Kernel.eligible = [] := by
        simpa [List.filter_eq_nil_iff] using hany
      rw [if_neg hany, Sha3_512Kernel.hash_memory_regions, hnone]
      refine .ret ⟨h, ?_⟩
      simp only [Answer, hnone, List.map_nil]
  | hash_many messages =>
    unfold step
    dsimp only
    rw [hash_many_eq]
    exact .ret ⟨h, rfl⟩
  | update_config config =>
    refine .ret ⟨?_, trivial⟩
    cases pending with
    | none => exact h
    | some bytes => exact h
  | config => exact .ret ⟨h, trivial⟩
  | simd_features => exact .ret ⟨h, trivial⟩

end Step

/-! ## Whole runs -/

/-- Every run ends without a fault, tracking what is pending, and every call in
it returned what it should. -/
theorem run_spec (p : Platform) (config : PerformanceConfig) (ops : List Op) :
    Returns (run p config ops) (fun r =>
      Tracks (pending ops) r.1 ∧ Machine.Outputs pendingAfter Answer (some []) ops r.2) := by
  refine Machine.run_spec pendingAfter Tracks Answer (fun _ _ op h => step_spec p op h) (some []) _ ops ?_
  exact tracks_fresh holds_new

/-- `d` is what `hash` returns for `bytes`, on any hasher and whatever was called
on it before. -/
def IsHashOf (p : Platform) (d : Sha3_512Hash) (bytes : List U8) : Prop :=
  ∀ (m : Slice U8) (config : PerformanceConfig) (ops : List Op), m.val = bytes →
    Returns (run p config ops) (fun r => Returns (r.1.hash p m) (fun out => out.2 = d))

theorem isHashOf (p : Platform) (bytes : List U8) : IsHashOf p (hashOf bytes) bytes := by
  rintro m config ops rfl
  refine (run_spec p config ops).mono ?_
  rintro r ⟨htracks, -⟩
  refine (hash_spec p htracks.inv m).mono ?_
  rintro out ⟨-, hout⟩
  exact hout

/-- Any order of calls, misuse included: nothing overflows, no index is out of
range, every loop ends, and the sponge keeps its invariant. -/
theorem run_safe (p : Platform) (config : PerformanceConfig) (ops : List Op) :
    Returns (run p config ops) (fun r => r.1.state.rate = 72 ∧ r.1.state.pos < 72) := by
  refine (run_spec p config ops).mono ?_
  rintro r ⟨htracks, -⟩
  exact ⟨htracks.inv.rate, htracks.inv.pos⟩

/-- Whatever was called before, `hash` returns the `KECCAK[1024]` of the bits of
its data and the suffix `01`. -/
theorem hash_fips202 (p : Platform) (config : PerformanceConfig) (ops : List Op) (m : Slice U8) :
    Returns (run p config ops) (fun r =>
      Returns (r.1.hash p m) (fun out =>
        bits out.2.toList = Fips202.keccak keccakString 1024 (bits m.val ++ [false, true]) 512)) := by
  refine (run_spec p config ops).mono ?_
  rintro r ⟨htracks, -⟩
  refine (hash_spec p htracks.inv m).mono ?_
  rintro out ⟨-, hout⟩
  rw [hout]
  exact bits_hashOf m.val

/-- A `finalize` anywhere in a run returns the digest of what is pending there,
the one `hash` returns for those bytes. -/
theorem finalize_eq_hash (p : Platform) (config : PerformanceConfig) (pre post : List Op) (bytes : List U8)
    (hpending : pending pre = some bytes) :
    Returns (run p config (pre ++ .finalize :: post)) (fun r =>
      ∃ d, r.2[pre.length]? = some (.hash d) ∧ d = hashOf bytes ∧ IsHashOf p d bytes) := by
  refine (run_spec p config _).mono ?_
  rintro r ⟨-, houts⟩
  obtain ⟨out, hout, d, rfl, hd⟩ := houts.at_call
  obtain rfl := hd bytes hpending
  exact ⟨_, hout, rfl, isHashOf p bytes⟩

/-- A split across three updates, one of them empty, with a batch and a change of
path in between. -/
theorem finalize_eq_hash_split :
    Returns (run ⟨true, true, true, true, true, true, true⟩ .default
      ([.update ⟨[1], by decide⟩, .hash_many [⟨[7], by decide⟩],
        .update_config { PerformanceConfig.default with use_avx512 := true }, .update ⟨[], by decide⟩,
        .update ⟨[2, 3], by decide⟩] ++ .finalize :: [.reset])) (fun r =>
      ∃ d, r.2[5]? = some (.hash d) ∧ d = hashOf [1, 2, 3] ∧
        IsHashOf ⟨true, true, true, true, true, true, true⟩ d [1, 2, 3]) :=
  finalize_eq_hash _ _ _ _ [1, 2, 3] rfl

/-! ## Memory regions -/

/-- The bytes at an address range. -/
def regionBytes (memory : Memory) (region : MemoryRegion) : List U8 :=
  (List.range region.size).map fun i => memory (region.base_address + BitVec.ofNat 64 i)

theorem regionDigest_eligible (memory : Memory) {region : MemoryRegion} (h : Sha3_512Kernel.eligible region = true) :
    regionDigest memory region.base_address region.size = hashOf (regionBytes memory region) := by
  simp only [Sha3_512Kernel.eligible, Bool.and_eq_true, decide_eq_true_eq] at h
  exact if_neg (by omega)

/-- On readable regions the filter and the size guard agree: what passes the
filter is hashed, and what does not is refused. -/
theorem guards_agree (p : Platform) (memory : Memory) (k : Sha3_512Kernel) (region : MemoryRegion)
    (hread : region.is_readable = true) :
    if Sha3_512Kernel.eligible region then
      ∃ m : Slice U8, m.val = regionBytes memory region ∧
        k.hash_memory_region p memory region.base_address region.size = k.hash p m
    else
      k.hash_memory_region p memory region.base_address region.size = .ok (k, Vector.replicate 64 0) := by
  by_cases hsize : region.size = 0 ∨ region.size > MAX_HASH_SIZE
  · have hskip : ¬Sha3_512Kernel.eligible region = true := by
      simp only [Sha3_512Kernel.eligible, Bool.and_eq_true, decide_eq_true_eq]
      omega
    rw [if_neg hskip]
    exact hash_memory_region_refused p memory k _ hsize
  · have hkeep : Sha3_512Kernel.eligible region = true := by
      simp only [Sha3_512Kernel.eligible, Bool.and_eq_true, decide_eq_true_eq]
      exact ⟨⟨hread, by omega⟩, by omega⟩
    rw [if_pos hkeep]
    unfold Sha3_512Kernel.hash_memory_region
    rw [dif_neg hsize]
    exact ⟨_, rfl, rfl⟩

/-- After any calls, `hash_memory_regions` returns one digest for each eligible
region, in order, the one `hash` returns for that region's bytes. No digest comes
from the size guard, and with no eligible region nothing happens. -/
theorem hash_memory_regions_law (p : Platform) (config : PerformanceConfig) (ops : List Op) (memory : Memory)
    (regions : List MemoryRegion) :
    Returns (run p config ops) (fun r =>
      Returns (r.1.hash_memory_regions p memory regions) (fun out =>
        let chosen := regions.filter Sha3_512Kernel.eligible
        out.2.length = chosen.length ∧
        (∀ (i : Nat) (region : MemoryRegion), chosen[i]? = some region →
          ∃ d, out.2[i]? = some d ∧ IsHashOf p d (regionBytes memory region)) ∧
        (chosen = [] → out.2 = [] ∧ out.1.state = r.1.state))) ∧
    ∀ (k : Sha3_512Kernel) (region : MemoryRegion), region.is_readable = true →
      if Sha3_512Kernel.eligible region then
        ∃ m : Slice U8, m.val = regionBytes memory region ∧
          k.hash_memory_region p memory region.base_address region.size = k.hash p m
      else
        k.hash_memory_region p memory region.base_address region.size = .ok (k, Vector.replicate 64 0) := by
  refine ⟨?_, guards_agree p memory⟩
  refine (run_spec p config ops).mono ?_
  rintro r ⟨htracks, -⟩
  by_cases hnone : regions.filter Sha3_512Kernel.eligible = []
  · rw [Sha3_512Kernel.hash_memory_regions, hnone]
    refine .ret ⟨rfl, ?_, fun _ => ⟨rfl, rfl⟩⟩
    intro i region hi
    rw [List.getElem?_nil] at hi
    cases hi
  · refine (hash_memory_regions_spec p memory htracks.inv regions).mono ?_
    rintro ⟨k', digests⟩ ⟨-, rfl⟩
    refine ⟨List.length_map .., ?_, fun h => absurd h hnone⟩
    intro i region hi
    have helig : Sha3_512Kernel.eligible region = true := (List.mem_filter.1 (List.mem_of_getElem? hi)).2
    refine ⟨hashOf (regionBytes memory region), ?_, isHashOf p _⟩
    rw [List.getElem?_map, hi, Option.map_some, regionDigest_eligible memory helig]

end Sha3Kernel
