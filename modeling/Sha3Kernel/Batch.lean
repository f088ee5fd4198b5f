import Sha3Kernel.Kernel
import Sha3Kernel.SimdParallel
/-!
# Batches (`hash_many` in `lib.rs`)

A second sponge: each message is padded as a whole, and up to eight or four of
them go through one permutation call together, block by block. A message with
fewer blocks than its neighbours has its digest taken at its own last block;
its lanes are permuted on, but never read again. Allocating a vector succeeds
here.
-/

namespace Sha3Kernel

open HashLib HashLib.Arrays HashLib.Bits HashLib.Checked HashLib.Blocks

/-! ## The code -/

def pad_message (msg : Slice U8) : Result (List U8) := do
  let rate := SHA3_512_RATE
  let full_blocks := msg.len / rate
  let total_len ← usize_mul (full_blocks + 1) rate
  let buf ← copy_from_slice (Vector.replicate total_len 0) 0 msg.len msg.val
  let buf ← store buf msg.len SHA3_DOMAIN_BYTE
  let last ← usize_sub total_len 1
  let byte ← index buf.toList last
  let buf ← store buf last (byte ||| 0x80)
  pure buf.toList

def xor_block_into (state : Lanes) (block : List U8) : Result Lanes := xor_words (SHA3_512_RATE / 8) block state

section Batch
variable {lanes : Nat}

/-- XOR block `block_idx` of every message that has one into its state. -/
def xor_blocks (padded : List (List U8)) (num_blocks : List Nat) (block_idx : Nat) (states : Vector Lanes lanes) :
    Result (Vector Lanes lanes) :=
  forRange 0 num_blocks.length (fun i states => do
    let n ← index num_blocks i
    if block_idx < n then
      let start ← usize_mul block_idx SHA3_512_RATE
      let block_end ← usize_add start SHA3_512_RATE
      let message ← index padded i
      let block ← slice message start block_end
      let state ← index states.toList i
      let state ← xor_block_into state block
      store states i state
    else
      pure states) states

/-- Take the digest of every message whose last block was `block_idx`. -/
def take_digests {messages : Nat} (num_blocks : List Nat) (block_idx : Nat) (states : Vector Lanes lanes)
    (results : Vector Sha3_512Hash messages) : Result (Vector Sha3_512Hash messages) :=
  forRange 0 messages (fun i results => do
    let n ← index num_blocks i
    let last ← usize_sub n 1
    if block_idx = last then
      let state ← index states.toList i
      let digest ← squeeze state
      store results i digest
    else
      pure results) results

/-- The two batch functions, which differ in the number of lanes and the
permutation. -/
def hash_batch (permute_all : Vector Lanes lanes → Vector Lanes lanes) (chunk : List (Slice U8)) :
    Result (List Sha3_512Hash) := do
  debug_assert (decide (chunk.length ≤ lanes))
  let padded ← chunk.mapM pad_message
  let num_blocks := padded.map fun p => p.length / SHA3_512_RATE
  let max_blocks := num_blocks.max?.getD 0
  let states : Vector Lanes lanes := Vector.replicate lanes (Vector.replicate 25 0)
  let results : Vector Sha3_512Hash chunk.length := Vector.replicate chunk.length (Vector.replicate 64 0)
  let (_, results) ← forRange 0 max_blocks (fun block_idx (states, results) => do
    let states ← xor_blocks padded num_blocks block_idx states
    let states := permute_all states
    let results ← take_digests num_blocks block_idx states results
    pure (states, results)) (states, results)
  pure results.toList

end Batch

def hash_batch_x8 : List (Slice U8) → Result (List Sha3_512Hash) := hash_batch keccak_f1600_x8_avx512

def hash_batch_x4 : List (Slice U8) → Result (List Sha3_512Hash) := hash_batch keccak_f1600_x4_avx2

/-- `xs.chunks(n)` for a positive `n`. -/
def chunks {α : Type} (n : Nat) (xs : List α) : List (List α) :=
  if 0 < n ∧ 0 < xs.length then xs.take n :: chunks n (xs.drop n) else []
termination_by xs.length
decreasing_by rw [List.length_drop]; omega

/-- The body of the chunk loop: the digests of a chunk, appended to those of the
chunks before it. -/
def hash_chunk (p : Platform) (width : Nat) (results : List Sha3_512Hash) (chunk : List (Slice U8)) :
    Result (List Sha3_512Hash) :=
  match width with
  | 8 => do
    let digests ← hash_batch_x8 chunk
    pure (results ++ digests)
  | 4 => do
    let digests ← hash_batch_x4 chunk
    pure (results ++ digests)
  | _ =>
    chunk.foldlM (fun results m => do
      let (_, digest) ← (Sha3_512Kernel.new p).hash p m
      pure (results ++ [digest])) results

/-- Only builds with `std` on x86_64 have this method; on other platforms no call of it
exists, and what is computed here for them stands for nothing. -/
def Sha3_512Kernel.hash_many (p : Platform) (self : Sha3_512Kernel) (messages : List (Slice U8)) :
    Result (List Sha3_512Hash) :=
  let width :=
    if self.config.use_avx512 && p.avx512f then 8
    else if self.config.use_avx2 && p.avx2 then 4
    else 1
  (chunks (max width 1) messages).foldlM (hash_chunk p width) []

/-! ## Padding -/

theorem pad_message_eq (msg : Slice U8) : pad_message msg = .ok (paddedMessage msg.val) := by
  have hlen : msg.val.length = msg.len := msg.val_length
  have hfit := msg.len_add_lt 72 (by decide)
  have htotal : (msg.len / 72 + 1) * 72 = msg.len + (72 - 1 - msg.len % 72 + 1) := by omega
  apply Returns.eq_ok
  unfold pad_message
  simp only [SHA3_512_RATE]
  rw [usize_mul_eq (by omega), ok_bind]
  refine (copy_from_slice_spec (Nat.zero_le _) (by omega) (by rw [hlen, Nat.sub_zero])).bind fun buf hbuf => ?_
  rw [store_eq _ (by omega), ok_bind, usize_sub_eq (by omega), ok_bind, index_eq (by simp), ok_bind,
    store_eq _ (by omega), ok_bind, Vector.getElem_toList]
  refine .ret ?_
  have hset := set_padAt 72 (msg.len % 72) msg.val
  have hlast : (msg.len / 72 + 1) * 72 - 1 = msg.len + (72 - 1 - msg.len % 72) := by omega
  have hzeros : buf.toList = msg.val ++ List.replicate (72 - 1 - msg.len % 72 + 1) 0 := by
    rw [hbuf, List.take_zero, List.nil_append, Vector.toList_replicate, List.drop_replicate, htotal,
      Nat.add_sub_cancel_left]
  rw [hlen] at hset
  rw [toList_padded _ (by omega) (by omega), hzeros, hlast, hset, paddedMessage, hlen, padTo]

/-! ## A batch in lockstep -/

/-- The lanes after the first `t` blocks of a padded message. -/
def lanesAfter (m : Slice U8) (t : Nat) : Lanes := run blockStep 72 t (Vector.replicate 25 0) (paddedMessage m.val)

/-- How many blocks a message has. -/
def blockCount (m : Slice U8) : Nat := m.len / 72 + 1

theorem digest_lanesAfter (m : Slice U8) : digest (lanesAfter m (blockCount m)) = hashOf m.val := rfl

/-- Block `t` of a padded message. -/
def blockOf (m : Slice U8) (t : Nat) : List U8 := ((paddedMessage m.val).drop (t * 72)).take 72

theorem lanesAfter_succ (m : Slice U8) (t : Nat) :
    lanesAfter m (t + 1) = blockStep (lanesAfter m t) (blockOf m t) := by
  unfold lanesAfter blockOf
  rw [run_add, run_succ, run_zero]

theorem length_padded (m : Slice U8) : (paddedMessage m.val).length = blockCount m * 72 := by
  rw [length_paddedMessage, m.val_length]
  rfl

theorem length_blockOf (m : Slice U8) {t : Nat} (h : t < blockCount m) : (blockOf m t).length = 72 := by
  unfold blockOf
  rw [List.length_take, List.length_drop, length_padded]
  omega

section Lockstep
variable {lanes : Nat} (chunk : List (Slice U8))

/-- Before block `t`: a message that is not done has absorbed `t` blocks, and
one that is done has its digest. -/
structure Lockstep (t : Nat) (states : Vector Lanes lanes) (results : Vector Sha3_512Hash chunk.length) : Prop where
  absorbed : ∀ (i : Fin chunk.length) (hi : i.val < lanes), t ≤ blockCount chunk[i] →
    states[i.val] = lanesAfter chunk[i] t
  taken : ∀ i : Fin chunk.length, blockCount chunk[i] ≤ t → results[i] = hashOf chunk[i].val

/-- The `i`-th state with its block XORed in, when its message has one. -/
def xorOwn (t : Nat) (i : Nat) (state : Lanes) : Lanes :=
  if h : i < chunk.length then
    if t < blockCount chunk[i] then xorWords 9 (blockOf chunk[i] t) state else state
  else state

theorem xor_blocks_eq (h : chunk.length ≤ lanes) (t : Nat) (states : Vector Lanes lanes) :
    xor_blocks (chunk.map fun m => paddedMessage m.val) (chunk.map blockCount) t states =
      .ok (mapFirst chunk.length (xorOwn chunk t) states) := by
  unfold xor_blocks
  rw [List.length_map]
  refine forRange_set h _ states fun i hi states => ?_
  have hfit := chunk[i].len_add_lt 72 (by decide)
  have hlen := length_padded chunk[i]
  have hcount : blockCount chunk[i] * 72 ≤ chunk[i].len + 72 := by unfold blockCount; omega
  rw [index_eq (by simpa using hi), ok_bind, List.getElem_map, xorOwn, dif_pos hi]
  by_cases ht : t < blockCount chunk[i]
  · have hend : t * 72 + 72 ≤ blockCount chunk[i] * 72 := by omega
    have hblock := length_blockOf chunk[i] ht
    simp only [SHA3_512_RATE]
    rw [if_pos ht, if_pos ht, usize_mul_eq (by omega), ok_bind, usize_add_eq (by omega), ok_bind,
      index_eq (by simpa using hi), ok_bind, List.getElem_map, slice_eq (by omega) (by omega), ok_bind,
      index_eq (by simp; omega), ok_bind, Nat.add_sub_cancel_left, Vector.getElem_toList]
    unfold xor_block_into
    rw [← blockOf, xor_words_eq (by decide) (by rw [hblock]; decide), ok_bind, store_eq _ (by omega)]
    rfl
  · rw [if_neg ht, if_neg ht]
    simp

/-- The `i`-th result after block `t`: the digest of the `i`-th state, when that
was its last block. -/
def takeOwn (t : Nat) (states : Vector Lanes lanes) (i : Nat) (result : Sha3_512Hash) : Sha3_512Hash :=
  if h : i < chunk.length ∧ i < lanes then
    have := h.1
    have := h.2
    if t + 1 = blockCount chunk[i] then digest states[i] else result
  else result

theorem take_digests_eq (h : chunk.length ≤ lanes) (t : Nat) (states : Vector Lanes lanes)
    (results : Vector Sha3_512Hash chunk.length) :
    take_digests (chunk.map blockCount) t states results =
      .ok (mapFirst chunk.length (takeOwn chunk t states) results) := by
  unfold take_digests
  refine forRange_set (Nat.le_refl _) _ results fun i hi results => ?_
  have hcount : 0 < blockCount chunk[i] := Nat.succ_pos _
  rw [index_eq (by simpa using hi), ok_bind, List.getElem_map, usize_sub_eq hcount, ok_bind, takeOwn,
    dif_pos ⟨hi, by omega⟩]
  by_cases ht : t + 1 = blockCount chunk[i]
  · rw [if_pos (by omega), if_pos ht, index_eq (by simp; omega), ok_bind, squeeze_eq, ok_bind, store_eq _ hi,
      Vector.getElem_toList]
  · rw [if_neg (by omega), if_neg ht]
    simp

/-! ### From one block to the next -/

theorem lockstep_zero : Lockstep chunk 0 (Vector.replicate lanes (Vector.replicate 25 0))
    (Vector.replicate chunk.length (Vector.replicate 64 0)) := by
  constructor
  · intro i hi _
    rw [Vector.getElem_replicate]
    rfl
  · intro i hi
    exact absurd hi (Nat.not_succ_le_zero _)

variable {permute_all : Vector Lanes lanes → Vector Lanes lanes}
  (hperm : ∀ states (j : Fin lanes), (permute_all states).get j = keccak_f1600 (states.get j))

include hperm in
theorem lockstep_succ (hle : chunk.length ≤ lanes) {t : Nat} {states : Vector Lanes lanes}
    {results : Vector Sha3_512Hash chunk.length} (h : Lockstep chunk t states results) :
    let states' := permute_all (mapFirst chunk.length (xorOwn chunk t) states)
    Lockstep chunk (t + 1) states' (mapFirst chunk.length (takeOwn chunk t states') results) := by
  intro states'
  have habsorbed : ∀ (i : Fin chunk.length) (hi : i.val < lanes), t + 1 ≤ blockCount chunk[i] →
      states'[i.val] = lanesAfter chunk[i] (t + 1) := by
    intro i hi ht
    have hstate := h.absorbed i hi (Nat.le_of_succ_le ht)
    have hp := hperm (mapFirst chunk.length (xorOwn chunk t) states) ⟨i.val, hi⟩
    rw [Vector.get_eq_getElem, Vector.get_eq_getElem, getElem_mapFirst, if_pos i.isLt, xorOwn, dif_pos i.isLt] at hp
    dsimp only at hp
    rw [← Fin.getElem_fin, if_pos (by simpa [Nat.succ_le_iff] using ht), hstate] at hp
    rw [lanesAfter_succ]
    exact hp
  refine ⟨habsorbed, ?_⟩
  -- a result is written in the pass of its message's last block only
  intro i ht
  have hi : i.val < lanes := Nat.lt_of_lt_of_le i.isLt hle
  rw [Fin.getElem_fin, getElem_mapFirst, if_pos i.isLt, takeOwn, dif_pos ⟨i.isLt, hi⟩]
  by_cases hlast : t + 1 = blockCount chunk[i]
  · -- this was its last block
    have hstate := habsorbed i hi (Nat.le_of_eq hlast)
    dsimp only
    rw [← Fin.getElem_fin, if_pos (by simpa using hlast), hstate, hlast, digest_lanesAfter]
  · -- its digest was taken before and is not written again
    have hdone := h.taken i (by omega)
    dsimp only
    rw [← Fin.getElem_fin, if_neg (by simpa using hlast)]
    exact hdone

include hperm in
/-- Every message of a batch gets its own digest. -/
theorem hash_batch_eq (hle : chunk.length ≤ lanes) :
    hash_batch permute_all chunk = .ok (chunk.map fun m => hashOf m.val) := by
  have hcounts : (chunk.map fun m => paddedMessage m.val).map (fun p => p.length / SHA3_512_RATE) =
      chunk.map blockCount := by
    rw [List.map_map]
    refine List.map_congr_left fun m _ => ?_
    rw [Function.comp_apply, length_padded]
    exact Nat.mul_div_cancel _ (by decide)
  apply Returns.eq_ok
  unfold hash_batch
  rw [debug_assert_eq (by simpa using hle), ok_bind, mapM_eq_map fun m _ => pad_message_eq m, ok_bind]
  dsimp only
  rw [hcounts]
  refine (forRange_spec (fun t r => Lockstep chunk t r.1 r.2) (Nat.zero_le _) (lockstep_zero chunk) ?_).bind ?_
  · rintro t ⟨states, results⟩ - - hr
    dsimp only
    rw [xor_blocks_eq chunk hle, ok_bind, take_digests_eq chunk hle, ok_bind]
    exact .ret (lockstep_succ chunk hperm hle hr)
  · rintro ⟨states, results⟩ hr
    refine .ret (List.ext_getElem (by simp) fun i h₁ h₂ => ?_)
    have hi : i < chunk.length := by simpa using h₂
    have hcount : blockCount chunk[i] ≤ (chunk.map blockCount).max?.getD 0 :=
      List.le_max?_getD_of_mem (List.mem_map_of_mem (List.getElem_mem hi))
    have hdone := hr.taken ⟨i, hi⟩ hcount
    rw [Vector.getElem_toList, List.getElem_map]
    exact hdone

end Lockstep

/-! ## All the messages -/

theorem chunks_spec {α : Type} (n : Nat) (h : 0 < n) (xs : List α) :
    (chunks n xs).flatten = xs ∧ ∀ c ∈ chunks n xs, c.length ≤ n := by
  induction xs using chunks.induct n with
  | case1 xs hxs ih =>
    obtain ⟨hflat, hlen⟩ := ih
    rw [chunks, if_pos hxs]
    constructor
    · rw [List.flatten_cons, hflat, List.take_append_drop]
    · intro c hc
      rcases List.mem_cons.1 hc with rfl | hc
      · exact List.length_take_le n xs
      · exact hlen c hc
  | case2 xs hxs =>
    obtain rfl : xs = [] := by
      rw [← List.length_eq_zero_iff]
      omega
    rw [chunks, if_neg hxs]
    simp

theorem hash_batch_x8_eq {chunk : List (Slice U8)} (h : chunk.length ≤ 8) :
    hash_batch_x8 chunk = .ok (chunk.map fun m => hashOf m.val) :=
  hash_batch_eq chunk x8_get h

theorem hash_batch_x4_eq {chunk : List (Slice U8)} (h : chunk.length ≤ 4) :
    hash_batch_x4 chunk = .ok (chunk.map fun m => hashOf m.val) :=
  hash_batch_eq chunk x4_get h

/-- Appending the results of the chunks, or of the messages of one chunk. -/
theorem foldlM_append {α β : Type} {body : List β → α → Result (List β)} {g : α → List β} {xs : List α}
    (hbody : ∀ acc, ∀ x ∈ xs, body acc x = .ok (acc ++ g x)) (acc : List β) :
    xs.foldlM body acc = .ok (acc ++ xs.flatMap g) := by
  induction xs generalizing acc with
  | nil => simp
  | cons x xs ih =>
    rw [List.foldlM_cons, hbody acc x List.mem_cons_self, ok_bind,
      ih (fun acc y hy => hbody acc y (List.mem_cons_of_mem _ hy)), List.flatMap_cons, List.append_assoc]

theorem hash_chunk_eq (p : Platform) {width : Nat} (results : List Sha3_512Hash) {chunk : List (Slice U8)}
    (h : chunk.length ≤ max width 1) :
    hash_chunk p width results chunk = .ok (results ++ chunk.map fun m => hashOf m.val) := by
  unfold hash_chunk
  split
  · rw [hash_batch_x8_eq h]
    rfl
  · rw [hash_batch_x4_eq h]
    rfl
  · rw [List.map_eq_flatMap]
    refine foldlM_append (fun acc m _ => ?_) results
    have hinv : Inv (Sha3_512Kernel.new p).state := holds_new.inv
    obtain ⟨⟨k, d⟩, hk, -, rfl⟩ := hash_spec p hinv m
    rw [hk]
    rfl

/-- `hash_many` hashes every message, whichever path the flags and the CPU pick. -/
theorem hash_many_eq (p : Platform) (self : Sha3_512Kernel) (messages : List (Slice U8)) :
    self.hash_many p messages = .ok (messages.map fun m => hashOf m.val) := by
  unfold Sha3_512Kernel.hash_many
  generalize (if self.config.use_avx512 && p.avx512f then 8 else if self.config.use_avx2 && p.avx2 then 4 else 1)
    = width
  obtain ⟨hflat, hlen⟩ := chunks_spec (max width 1) (by omega) messages
  have hbody : ∀ acc, ∀ c ∈ chunks (max width 1) messages,
      hash_chunk p width acc c = .ok (acc ++ c.map fun m => hashOf m.val) :=
    fun acc c hc => hash_chunk_eq p acc (hlen c hc)
  rw [foldlM_append hbody, List.nil_append, ← List.map_flatMap, List.flatMap_id', hflat]

/-- The batch path agrees with the scalar one: a digest for every message, in
order, each what a hasher on the scalar path returns for that message. -/
theorem hash_many_scalar (p : Platform) (self : Sha3_512Kernel) (config : PerformanceConfig)
    (messages : List (Slice U8)) :
    Returns (self.hash_many p messages) (fun digests =>
      digests.length = messages.length ∧
        ∀ i : Fin messages.length,
          Returns ((Sha3_512Kernel.with_config p { config with use_avx512 := false }).hash p messages[i])
            (fun r => digests[i.val]? = some r.2)) := by
  refine .of_eq (hash_many_eq p self messages) ⟨List.length_map .., ?_⟩
  intro i
  have hinv : Inv (Sha3_512Kernel.with_config p { config with use_avx512 := false }).state := holds_new.inv
  refine (hash_spec p hinv messages[i]).mono ?_
  rintro r ⟨-, hr⟩
  rw [hr, List.getElem?_map, List.getElem?_eq_getElem i.isLt]
  rfl

end Sha3Kernel
