import Sha3Kernel.BlockTrace
/-!
# What a call does to the sponge

One statement for each phase of the code, at any rate that has room in the buffer:
`Takes` says which blocks went into the lanes, and that these blocks and the bytes
left waiting in the buffer spell what was waiting before and what came in. Nothing
is said of the bytes behind those. What the sponge computes is read off its code here
and nowhere else.
-/

namespace Sha3Kernel

open HashLib HashLib.Arrays HashLib.Bits HashLib.Checked HashLib.Blocks HashLib.Erase

/-! ## Words of a block -/

/-- The lanes with the first `words` words of a block XORed in. -/
def xorWords (words : Nat) (block : List U8) (state : Lanes) : Lanes :=
  mapFirst words (fun i lane => lane ^^^ leWord block i) state

theorem read_word_eq {block : List U8} {i : Nat} (h : i * 8 + 8 ≤ block.length) :
    read_word block (i * 8) = .ok (leWord block i) := by
  unfold read_word word_from
  simp (disch := omega) only [index_eq, ok_bind, pure_eq_ok]
  congr 2
  refine Vector.ext fun k hk => ?_
  have hb : 8 * i + k < block.length := by omega
  rw [Vector.getElem_ofFn, List.getD_eq_getElem?_getD, List.getElem?_eq_getElem hb, Option.getD_some]
  have hi : i * 8 = 8 * i := Nat.mul_comm i 8
  interval_cases k <;> simp [hi]

/-- The word loop stays in bounds and XORs the words of the block. -/
theorem xor_words_eq {words : Nat} {block : List U8} (hw : words ≤ 25) (hb : 8 * words ≤ block.length)
    (state : Lanes) : xor_words words block state = .ok (xorWords words block state) := by
  unfold xor_words xorWords
  refine forRange_set hw _ state fun i hi lanes => ?_
  dsimp only
  rw [read_word_eq (by omega), ok_bind, index_eq (by simp; omega), ok_bind, store_eq _ (by omega),
    Vector.getElem_toList]

/-- Words of the first `n` bytes see no others. -/
theorem xorWords_take {words n : Nat} (h : 8 * words ≤ n) (block : List U8) (state : Lanes) :
    xorWords words (block.take n) state = xorWords words block state := by
  refine Vector.ext fun j hj => ?_
  unfold xorWords
  rw [getElem_mapFirst, getElem_mapFirst]
  by_cases hw : j < words
  · rw [if_pos hw, if_pos hw, leWord_take _ _ _ (by omega)]
  · rw [if_neg hw, if_neg hw]

/-- Absorb one block: the whole words of the first `r` bytes. -/
def stepAt (r : Nat) (state : Lanes) (block : List U8) : Lanes := keccak_f1600 (xorWords (r / 8) block state)

theorem stepAt_take (r : Nat) (state : Lanes) (block : List U8) :
    stepAt r state (block.take r) = stepAt r state block := by
  unfold stepAt
  rw [xorWords_take (Nat.mul_div_le r 8)]

/-- Cutting off a block keeps its whole words. -/
theorem take_words (r : Nat) (xs : List U8) : (xs.take r).take (r / 8 * 8) = xs.take (r / 8 * 8) := by
  rw [List.take_take, Nat.min_eq_left (Nat.div_mul_le_self _ _)]

/-- A block of SHA3-512, nine words. -/
def blockStep (state : Lanes) (block : List U8) : Lanes := stepAt 72 state block

/-! ## Live bytes -/

/-- The bytes in the buffer that wait for their block to fill. -/
def Sha3_512State.live (s : Sha3_512State) : List U8 := s.buffer.toList.take s.pos

/-- The calls return, and find every access in bounds. -/
structure Fits (s : Sha3_512State) : Prop where
  rate_pos : 0 < s.rate
  rate_le : s.rate ≤ 200
  pos_le : s.pos ≤ s.rate
  pos_lt : s.pos < 200

/-- What every call of the hasher needs of its sponge, and keeps. -/
structure Inv (s : Sha3_512State) : Prop where
  rate : s.rate = 72
  pos : s.pos < 72

theorem Inv.fits {s : Sha3_512State} (h : Inv s) : Fits s := by
  obtain ⟨hrate, hpos⟩ := h
  constructor
  · omega
  · omega
  · omega
  · omega

theorem length_live {s : Sha3_512State} (h : s.pos ≤ 200) : s.live.length = s.pos := by
  rw [Sha3_512State.live, List.length_take, Vector.length_toList]
  omega

theorem live_empty {s : Sha3_512State} (h : s.pos = 0) : s.live = [] := by
  rw [Sha3_512State.live, h, List.take_zero]

/-- The live bytes after a copy that starts where they end. -/
theorem take_copied {n lo hi : Nat} {xs ys : Vector U8 n} {src : List U8} (hn : lo ≤ n)
    (h : ys.toList = xs.toList.take lo ++ src ++ xs.toList.drop hi) (hsrc : lo + src.length = hi) :
    ys.toList.take hi = xs.toList.take lo ++ src := by
  rw [h]
  refine List.take_left' ?_
  rw [List.length_append, List.length_take, Vector.length_toList]
  omega

/-- From `s` to `s'` the sponge took `bytes` in blocks of `r`, and the rest, less than
a block, is live. The trace has the words of the blocks, all that reaches the lanes. -/
structure Takes (r : Nat) (s : Sha3_512State) (bytes : List U8) (s' : Sha3_512State) (trace : Trace) : Prop where
  rate : s'.rate = r
  pos : s'.pos < r
  blocks : ∃ blocks : List (List U8), trace = blocks.map (List.take (r / 8 * 8)) ∧
    (∀ block ∈ blocks, block.length = r) ∧ blocks.flatten ++ s'.live = s.live ++ bytes ∧
    s'.state = blocks.foldl (stepAt r) s.state

namespace Takes
variable {r : Nat} {s s' s'' : Sha3_512State} {xs ys : List U8} {trace trace' : Trace}

/-- No block, when all that comes in stays live. -/
theorem keep (hrate : s'.rate = r) (hpos : s'.pos < r) (hlive : s'.live = s.live ++ xs) (hstate : s'.state = s.state) :
    Takes r s xs s' [] :=
  ⟨hrate, hpos, [], rfl, List.forall_mem_nil _, hlive, hstate⟩

theorem trans (h : Takes r s xs s' trace) (h' : Takes r s' ys s'' trace') :
    Takes r s (xs ++ ys) s'' (trace ++ trace') := by
  obtain ⟨-, -, blocks, rfl, hwhole, hspells, hlanes⟩ := h
  obtain ⟨hrate', hpos', blocks', rfl, hwhole', hspells', hlanes'⟩ := h'
  refine ⟨hrate', hpos', blocks ++ blocks', List.map_append.symm, ?_, ?_, ?_⟩
  · intro block hmem
    exact (List.mem_append.1 hmem).elim (hwhole block) (hwhole' block)
  · rw [List.flatten_append, List.append_assoc, hspells', ← List.append_assoc, hspells, List.append_assoc]
  · rw [List.foldl_append, ← hlanes, hlanes']

/-- One block, when that is what is live and comes in. -/
theorem block {block : List U8} (hrate : s'.rate = r) (hr : 0 < r) (hpos : s'.pos = 0) (hlen : block.length = r)
    (hblock : block = s.live ++ xs) (hstate : s'.state = stepAt r s.state block) :
    Takes r s xs s' [block.take (r / 8 * 8)] := by
  refine ⟨hrate, by omega, [block], rfl, ?_, ?_, ?_⟩
  · intro b hmem
    rw [List.mem_singleton.1 hmem, hlen]
  · rw [List.flatten_singleton, live_empty hpos, List.append_nil, hblock]
  · rw [List.foldl_cons, List.foldl_nil, hstate]

theorem live_lt (h : Takes r s xs s' trace) (hr : r ≤ 200) : s'.live.length < r := by
  have hpos := h.pos
  rw [length_live (by omega)]
  exact hpos

/-- Where a block has whole words only, the trace has the blocks. -/
theorem traced (h : Takes r s xs s' trace) (hr : 8 ∣ r) :
    (∀ block ∈ trace, block.length = r) ∧ trace.flatten ++ s'.live = s.live ++ xs ∧
      s'.state = trace.foldl (stepAt r) s.state := by
  obtain ⟨-, -, blocks, rfl, hwhole, hrest⟩ := h
  have hblocks : blocks.map (List.take (r / 8 * 8)) = blocks := by
    have hid : ∀ block ∈ blocks, block.take r = id block := by
      intro block hmem
      exact List.take_of_length_le (Nat.le_of_eq (hwhole block hmem))
    rw [Nat.div_mul_cancel hr, List.map_congr_left hid, List.map_id]
  rw [hblocks]
  exact ⟨hwhole, hrest⟩

end Takes

/-! ## `absorb` -/

theorem xor_block_traced_eq {s : Sha3_512State} (h : s.rate ≤ 200) :
    s.xor_block_into_state_traced =
      .ok ({ s with state := xorWords (s.rate / 8) s.buffer.toList s.state },
        [s.buffer.toList.take (s.rate / 8 * 8)]) := by
  unfold Sha3_512State.xor_block_into_state_traced xor_words_traced
  dsimp only
  rw [xor_words_eq (by omega) (by simp; omega)]
  rfl

section Absorb
variable (p : Platform) (use_avx512 : Bool) {s : Sha3_512State} (data : Slice U8)

/-- Where the phases of `absorb` meet: the bytes before the offset are taken, and
bytes are left only when nothing is live. -/
def Absorbed (s : Sha3_512State) (data : Slice U8) (r : (Sha3_512State × Nat) × Trace) : Prop :=
  r.1.2 ≤ data.len ∧ Takes s.rate s (data.val.take r.1.2) r.1.1 r.2 ∧ (r.1.1.pos = 0 ∨ r.1.2 = data.len)

theorem absorb_fill_spec (h : Fits s) : Returns (s.absorb_fill_traced p data use_avx512) (Absorbed s data) := by
  obtain ⟨hrate, hrate', hpos, hpos'⟩ := h
  have hlen : data.val.length = data.len := data.val_length
  unfold Sha3_512State.absorb_fill_traced
  by_cases h0 : 0 < s.pos
  · rw [if_pos h0]
    have hfit := data.len_add_lt 200 (by decide)
    generalize hk : min (s.rate - s.pos) data.len = k
    have hkd : k ≤ data.len := by omega
    have hkr : s.pos + k ≤ s.rate := by omega
    have htake : (data.val.take k).length = k := by rw [List.length_take]; omega
    rw [usize_sub_eq hpos, ok_bind]
    dsimp only
    rw [hk, slice_eq (Nat.zero_le k) hkd, ok_bind, usize_add_eq (by simp only [usizeMax]; omega), ok_bind]
    apply (copy_from_slice_spec (by omega) (by omega) (by simpa using htake)).bind
    intro buffer hbuf
    rw [usize_add_eq (by simp only [usizeMax] at *; omega), ok_bind]
    simp only [List.drop_zero, Nat.sub_zero, Nat.zero_add] at hbuf ⊢
    have hlive : buffer.toList.take (s.pos + k) = s.live ++ data.val.take k :=
      take_copied (by omega) hbuf (by omega)
    by_cases hfull : s.pos + k = s.rate
    · -- the copy completes the block in the buffer
      have hxor := xor_block_traced_eq (s := { s with buffer, pos := s.pos + k }) hrate'
      have hblock : buffer.toList.take s.rate = s.live ++ data.val.take k := by
        rw [← hlive, hfull]
      rw [if_pos hfull, hxor, ok_bind]
      dsimp only
      rw [← take_words, permute_eq]
      refine .ret ⟨hkd, .block rfl hrate rfl (by simp; omega) hblock ?_, .inl rfl⟩
      rw [stepAt_take]
      rfl
    · -- the block is still short, so the copy took all of the data
      rw [if_neg hfull]
      exact .ret ⟨hkd, .keep rfl (by dsimp only; omega) hlive rfl, .inr (by dsimp only; omega)⟩
  · rw [if_neg h0]
    exact .ret ⟨Nat.zero_le _, .keep rfl (by dsimp only; omega) (by simp) rfl, .inl (by dsimp only; omega)⟩

/-- One pass of the block loop: another block, or none is left. -/
theorem absorb_block_spec (h : Fits s) (r : (Sha3_512State × Nat) × Trace) (hr : Absorbed s data r) :
    Returns (Sha3_512State.absorb_block_traced p data use_avx512 r)
      (Flow.Post (fun r' => Absorbed s data r' ∧ data.len - r'.1.2 < data.len - r.1.2)
        (fun r' => Absorbed s data r' ∧ data.len < r'.1.2 + s.rate)) := by
  obtain ⟨⟨s', offset⟩, trace⟩ := r
  obtain ⟨hoff, htakes, hleft⟩ := hr
  obtain ⟨hrate, hrate', -, -⟩ := h
  have hlen : data.val.length = data.len := data.val_length
  have hfit := data.len_add_lt 200 (by decide)
  have hsame : s'.rate = s.rate := htakes.rate
  dsimp only at hoff htakes hleft
  have hadd : usize_add offset s'.rate = .ok (offset + s.rate) := by rw [hsame]; exact usize_add_eq (by omega)
  unfold Sha3_512State.absorb_block_traced xor_words_traced
  dsimp only
  rw [hadd, ok_bind]
  by_cases hend : offset + s.rate ≤ data.len
  · have hblock : ((data.val.drop offset).take s.rate).length = s.rate := by
      rw [List.length_take, List.length_drop]; omega
    rw [if_pos hend, slice_eq (by omega) hend, ok_bind, Nat.add_sub_cancel_left, hsame,
      xor_words_eq (by omega) (by rw [hblock]; omega), ok_bind, pure_eq_ok, ok_bind, ok_bind]
    -- bytes are left, so nothing is live and the block is a whole step
    have hpos : s'.pos = 0 := by omega
    refine .ret ⟨⟨hend, ?_, .inl hpos⟩, by dsimp only; omega⟩
    rw [List.take_add]
    refine htakes.trans (.block rfl hrate hpos hblock (by rw [live_empty hpos]; rfl) ?_)
    exact permute_eq p _ use_avx512
  · rw [if_neg hend]
    exact .ret ⟨⟨hoff, htakes, hleft⟩, by dsimp only; omega⟩

theorem absorb_tail_spec (h : Fits s) (r : (Sha3_512State × Nat) × Trace) (hr : Absorbed s data r)
    (hshort : data.len < r.1.2 + s.rate) :
    Returns (r.1.1.absorb_tail data r.1.2) (Takes s.rate s data.val · r.2) := by
  obtain ⟨⟨s', offset⟩, trace⟩ := r
  obtain ⟨hoff, htakes, hleft⟩ := hr
  have hrate := h.rate_le
  have hlen : data.val.length = data.len := data.val_length
  dsimp only at hoff htakes hleft hshort ⊢
  unfold Sha3_512State.absorb_tail
  rw [usize_sub_eq hoff, ok_bind]
  by_cases h0 : 0 < data.len - offset
  · rw [if_pos h0, slice_eq hoff (Nat.le_of_eq hlen.symm), ok_bind]
    have hpos : s'.pos = 0 := by omega
    have hsrc : (data.val.drop offset).length = data.len - offset := by rw [List.length_drop, hlen]
    rw [List.take_of_length_le (Nat.le_of_eq hsrc)]
    apply (copy_from_slice_spec (Nat.zero_le _) (by omega) (by rw [hsrc, Nat.sub_zero])).bind
    intro buffer hbuf
    have hlive := take_copied (Nat.zero_le _) hbuf (by omega)
    rw [List.take_zero, List.nil_append] at hlive
    have hkeep : Takes s.rate s' (data.val.drop offset) { s' with buffer, pos := data.len - offset } [] := by
      refine .keep htakes.rate (by dsimp only; omega) ?_ rfl
      rw [live_empty hpos]
      exact hlive
    have hall := htakes.trans hkeep
    rw [List.take_append_drop, List.append_nil] at hall
    exact .ret hall
  · -- the data ended with a block
    rw [if_neg h0]
    have hall : data.val.take offset = data.val := List.take_of_length_le (by omega)
    rw [hall] at htakes
    exact .ret htakes

/-- `absorb` takes its data, however it falls across blocks. -/
theorem absorb_traced_takes (h : Fits s) :
    Returns (s.absorb_traced p data use_avx512) (fun r => Takes s.rate s data.val r.1 r.2) := by
  unfold Sha3_512State.absorb_traced
  apply (absorb_fill_spec p use_avx512 data h).bind
  intro r hr
  have hloop := loop_spec (fun r => data.len - r.1.2) (Absorbed s data)
    (fun r => Absorbed s data r ∧ data.len < r.1.2 + s.rate) (absorb_block_spec p use_avx512 data h) (data.len + 1)
    r hr (by omega)
  apply hloop.bind
  rintro r ⟨hr, hshort⟩
  exact (absorb_tail_spec data h r hr hshort).bind fun s' hs' => .ret hs'

theorem absorb_takes (h : Fits s) :
    Returns (s.absorb p data use_avx512) (fun s' => ∃ trace, Takes s.rate s data.val s' trace) := by
  apply (Sha3_512State.absorb_erases p s data use_avx512).returns
  exact (absorb_traced_takes p use_avx512 data h).mono fun r hr => ⟨r.2, hr⟩

end Absorb

/-! ## The last block -/

/-- The padding of a block of `r` bytes, `n` of which are there: the domain byte,
zeros, and the high bit of the last byte, which is the domain byte itself when there
is room for one. -/
def padAt (r n : Nat) : List U8 := (SHA3_DOMAIN_BYTE :: List.replicate (r - 1 - n) 0).modify (r - 1 - n) (· ||| 0x80)

theorem length_padAt (r n : Nat) : (padAt r n).length = r - 1 - n + 1 := by simp [padAt]

/-- The padding of SHA3-512. -/
def padTo (n : Nat) : List U8 := padAt 72 n

@[simp] theorem length_padTo (n : Nat) : (padTo n).length = 71 - n + 1 := length_padAt 72 n

/-- The last block: the domain byte behind the live bytes and zeros behind it, as far
as there is room, and the high bit of the last byte. -/
def lastBlock (r : Nat) (live : List U8) : List U8 :=
  ((live ++ SHA3_DOMAIN_BYTE :: List.replicate (r - 1 - live.length) 0).take r).modify (r - 1) (· ||| 0x80)

theorem modify_padded (xs : List U8) (k : Nat) :
    (xs ++ SHA3_DOMAIN_BYTE :: List.replicate k 0).modify (xs.length + k) (· ||| 0x80) =
      xs ++ (SHA3_DOMAIN_BYTE :: List.replicate k 0).modify k (· ||| 0x80) := by
  rw [List.modify_eq_set, List.modify_eq_set, List.set_append_right _ _ (Nat.le_add_right _ _),
    List.getElem?_append_right (Nat.le_add_right _ _), Nat.add_sub_cancel_left]

/-- A short block is padded behind its bytes, by their number alone. -/
theorem lastBlock_eq {r : Nat} {live : List U8} (h : live.length < r) :
    lastBlock r live = live ++ padAt r live.length := by
  have hroom : r - 1 = live.length + (r - 1 - live.length) := by omega
  have hlen : (live ++ SHA3_DOMAIN_BYTE :: List.replicate (r - 1 - live.length) 0).length = r := by
    simp
    omega
  unfold lastBlock padAt
  rw [List.take_of_length_le (Nat.le_of_eq hlen), ← modify_padded, ← hroom]

theorem length_lastBlock {r : Nat} {live : List U8} (h : live.length < r) : (lastBlock r live).length = r := by
  rw [lastBlock_eq h, List.length_append, length_padAt]
  omega

/-- Writing the domain byte and the last bit into zeros behind `xs` appends the
padding. -/
theorem set_padAt (r n : Nat) (xs : List U8) :
    let ys := (xs ++ List.replicate (r - 1 - n + 1) 0).set xs.length SHA3_DOMAIN_BYTE
    ys.set (xs.length + (r - 1 - n)) (ys.getD (xs.length + (r - 1 - n)) 0 ||| 0x80) = xs ++ padAt r n := by
  intro ys
  have hys : ys = xs ++ SHA3_DOMAIN_BYTE :: List.replicate (r - 1 - n) 0 := by
    simp [ys, List.replicate_succ]
  rw [padAt, ← modify_padded, ← hys, List.modify_eq_set]
  rfl

/-- The two bytes that `finalize` writes into the cleared block make it the last
block. A full block has no room for the first of them. -/
theorem set_lastBlock {r : Nat} {live : List U8} (hlen : live.length ≤ r) :
    let ys := (live ++ List.replicate (r - live.length) 0).set live.length SHA3_DOMAIN_BYTE
    ys.set (r - 1) (ys.getD (r - 1) 0 ||| 0x80) = lastBlock r live := by
  rcases Nat.lt_or_eq_of_le hlen with hlt | heq
  · have hroom : r - live.length = r - 1 - live.length + 1 := by omega
    have hlast : r - 1 = live.length + (r - 1 - live.length) := by omega
    have hset := set_padAt r live.length live
    rw [← hroom, ← hlast] at hset
    rw [lastBlock_eq hlt]
    exact hset
  · intro ys
    have hnone : r - live.length = 0 := by omega
    have hys : ys = live := by simp [ys, hnone]
    rw [lastBlock, List.take_left' heq, List.modify_eq_set, hys]
    rfl

/-- Bit 1 marks where the padding starts: the domain byte has it, the bytes behind
it do not. -/
theorem padAt_marked (r n : Nat) :
    ∃ first rest, padAt r n = first :: rest ∧ first.getLsbD 1 = true ∧ ∀ x ∈ rest, x.getLsbD 1 = false := by
  unfold padAt
  cases hk : r - 1 - n with
  | zero => exact ⟨SHA3_DOMAIN_BYTE ||| 0x80, [], rfl, by decide, nofun⟩
  | succ k =>
    refine ⟨SHA3_DOMAIN_BYTE, (List.replicate (k + 1) 0).modify k (· ||| 0x80), rfl, by decide, fun x hx => ?_⟩
    obtain ⟨j, hj, rfl⟩ := List.getElem_of_mem hx
    rw [List.getElem_modify, List.getElem_replicate]
    split
    · decide
    · decide

/-- The mark shows where the padding starts, so it can be taken off. -/
theorem append_padAt_inj {r m n : Nat} {xs ys : List U8} (h : xs ++ padAt r m = ys ++ padAt r n) : xs = ys := by
  obtain ⟨a, as, ha, hmark, hrest⟩ := padAt_marked r m
  obtain ⟨b, bs, hb, hmark', hrest'⟩ := padAt_marked r n
  rw [ha, hb] at h
  exact append_marked_inj hmark hmark' hrest hrest' h

/-! ## `finalize` -/

/-- The first 64 bytes of the lanes. -/
def digest (state : Lanes) : Sha3_512Hash where
  toArray := ((state.toList.take 8).flatMap fun x => (to_le_bytes x).toList).toArray
  size_toArray := by
    rw [List.size_toArray, length_flatMap_of _ fun x => (to_le_bytes x).length_toList, List.length_take,
      Vector.length_toList]
    rfl

theorem toList_digest (state : Lanes) :
    (digest state).toList = (state.toList.take 8).flatMap fun x => (to_le_bytes x).toList := rfl

theorem squeeze_eq (state : Lanes) : squeeze state = .ok (digest state) := by
  have h : Returns (squeeze state) (fun hash => hash.toList.take (8 * 8) = (digest state).toList) := by
    unfold squeeze
    refine forRange_spec (fun i (hash : Sha3_512Hash) => hash.toList.take (i * 8) =
      (state.toList.take i).flatMap fun x => (to_le_bytes x).toList) (Nat.zero_le 8) (by simp) ?_
    intro i hash _ hi hlive
    rw [index_eq (by simp; omega), ok_bind]
    refine (copy_from_slice_spec (by omega) (by omega) (by simp; omega)).mono fun hash' hcopy => ?_
    rw [take_copied (by omega) hcopy (by simp; omega), hlive, List.take_succ_eq_append_getElem (by simp; omega),
      List.flatMap_append, List.flatMap_singleton]
  -- eight lanes are all of the hash
  refine Returns.eq_ok (h.mono fun hash hhash => ?_)
  rw [List.take_of_length_le (by simp)] at hhash
  exact Vector.toList_inj.mp hhash

/-- The loop of `finalize` that clears the buffer behind the live bytes. -/
theorem clear_spec {lo hi n : Nat} (hle : lo ≤ hi) (hn : hi ≤ n) (buffer : Vector U8 n) :
    Returns (forRange lo hi (fun i buffer => store buffer i 0) buffer)
      (fun buffer' => buffer'.toList.take hi = buffer.toList.take lo ++ List.replicate (hi - lo) 0) := by
  refine forRange_spec (fun i (buffer' : Vector U8 n) =>
    buffer'.toList.take i = buffer.toList.take lo ++ List.replicate (i - lo) 0) hle (by simp) ?_
  intro i buffer' hlo hi' hlive
  rw [store_eq _ (by omega)]
  refine .ret ?_
  rw [take_stored _ _ (by omega), hlive, List.append_assoc, Nat.succ_sub hlo, List.replicate_succ']

/-- The two bytes that both padding routines write, on the list of the bytes. -/
theorem toList_padded {n i last : Nat} (buffer : Vector U8 n) (hi : i < n) (hlast : last < n) :
    ((buffer.set i SHA3_DOMAIN_BYTE).set last ((buffer.set i SHA3_DOMAIN_BYTE)[last] ||| 0x80)).toList =
      (buffer.toList.set i SHA3_DOMAIN_BYTE).set last
        ((buffer.toList.set i SHA3_DOMAIN_BYTE).getD last 0 ||| 0x80) := by
  generalize hys : buffer.set i SHA3_DOMAIN_BYTE = ys
  have hlist : buffer.toList.set i SHA3_DOMAIN_BYTE = ys.toList := by rw [← hys, Vector.toList_set]
  rw [hlist, Vector.toList_set, List.getD_eq_getElem?_getD, List.getElem?_eq_getElem (by simpa using hlast),
    Vector.getElem_toList, Option.getD_some]

/-- `finalize` absorbs the last block and reads the digest; `pos` stays. -/
structure Finalizes (r : Nat) (s s' : Sha3_512State) (hash : Sha3_512Hash) : Prop where
  rate : s'.rate = r
  pos : s'.pos = s.pos
  live : s'.live = (lastBlock r s.live).take s.pos
  block : s'.buffer.toList.take r = lastBlock r s.live
  lanes : s'.state = stepAt r s.state (lastBlock r s.live)
  hash : hash = digest s'.state

theorem finalize_traced_finalizes (p : Platform) (use_avx512 : Bool) {s : Sha3_512State} (h : Fits s) :
    Returns (s.finalize_traced p use_avx512) (fun r =>
      Finalizes s.rate s r.1.1 r.1.2 ∧ r.2 = [(lastBlock s.rate s.live).take (s.rate / 8 * 8)]) := by
  obtain ⟨state, pos, rate, buffer⟩ := s
  obtain ⟨hrate, hrate', hpos, hpos'⟩ := h
  dsimp only at hrate hrate' hpos hpos'
  unfold Sha3_512State.finalize_traced
  dsimp only
  apply (clear_spec hpos hrate' buffer).bind
  intro cleared hcleared
  rw [store_eq _ hpos', ok_bind, usize_sub_eq hrate, ok_bind, index_eq (by simp; omega), ok_bind,
    store_eq _ (by omega), ok_bind, Vector.getElem_toList]
  generalize hpadded : (cleared.set pos SHA3_DOMAIN_BYTE).set (rate - 1) _ = padded
  have hlen : (buffer.toList.take pos).length = pos := by
    rw [List.length_take, Vector.length_toList]
    omega
  -- what is absorbed is the live bytes and the padding, whatever was stale behind them
  have hblock : padded.toList.take rate = lastBlock rate (buffer.toList.take pos) := by
    have hset := set_lastBlock (hlen.trans_le hpos)
    rw [hlen, ← hcleared] at hset
    rw [← hset, ← hpadded, toList_padded _ hpos' (by omega), List.take_set, List.take_set,
      ← List.take_set, List.getD_eq_getElem?_getD, List.getD_eq_getElem?_getD,
      List.getElem?_take_of_lt (by omega)]
  have hlive : padded.toList.take pos = (lastBlock rate (buffer.toList.take pos)).take pos := by
    rw [← hblock, List.take_take, Nat.min_eq_left hpos]
  have htrace : padded.toList.take (rate / 8 * 8) = (lastBlock rate (buffer.toList.take pos)).take (rate / 8 * 8) := by
    rw [← hblock, take_words]
  rw [xor_block_traced_eq hrate', ok_bind]
  dsimp only
  rw [squeeze_eq, ok_bind, permute_eq, htrace]
  refine .ret ⟨⟨rfl, rfl, hlive, hblock, ?_, rfl⟩, rfl⟩
  dsimp only
  rw [Sha3_512State.live, ← hblock, stepAt_take]
  rfl

theorem finalize_finalizes (p : Platform) (use_avx512 : Bool) {s : Sha3_512State} (h : Fits s) :
    Returns (s.finalize p use_avx512) (fun r => Finalizes s.rate s r.1 r.2) := by
  apply (Sha3_512State.finalize_erases p s use_avx512).returns
  exact (finalize_traced_finalizes p use_avx512 h).mono fun r hr => hr.1

end Sha3Kernel
