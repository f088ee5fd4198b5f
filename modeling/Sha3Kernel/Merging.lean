import Sha3Kernel.AnyRate
import Sha3Kernel.KeccakBits
/-!
# Sponges that merge

Two sponges merge when their lanes become equal. No call but a reset does that to
two usable sponges of one rate with the same bytes waiting, less than a block, since
the permutation is a bijection and a block is XORed in. Different data merges them if it differs only in bytes that are never XORed
in, which are there when the rate is not a number of whole words; if it differs
within one block, only then.
-/

namespace Sha3Kernel

open HashLib HashLib.Arrays HashLib.Bits HashLib.Checked HashLib.Blocks

/-! ## One block -/

theorem keccak_f1600_injective : Function.Injective keccak_f1600 := by
  intro s t h
  apply stateArray_injective
  apply Fips202.keccakF_injective
  rw [← keccak_f1600_bits, ← keccak_f1600_bits, h]

theorem xorWords_injective (words : Nat) (block : List U8) : Function.Injective (xorWords words block) := by
  intro s t h
  refine Vector.ext fun j hj => ?_
  have hlane : (xorWords words block s)[j] = (xorWords words block t)[j] := by rw [h]
  unfold xorWords at hlane
  rw [getElem_mapFirst, getElem_mapFirst] at hlane
  by_cases hw : j < words
  · simpa [hw] using hlane
  · simpa [hw] using hlane

theorem stepAt_injective (r : Nat) (block : List U8) : Function.Injective (stepAt r · block) := by
  intro s t h
  exact xorWords_injective _ _ (keccak_f1600_injective h)

/-- A word has the bits of its eight bytes. -/
theorem getD_of_leWord_eq {xs ys : List U8} {i k : Nat} (h : leWord xs i = leWord ys i) (hk : k < 8) :
    xs.getD (8 * i + k) 0 = ys.getD (8 * i + k) 0 := by
  refine BitVec.eq_of_getLsbD_eq fun z hz => ?_
  have hbit : (leWord xs i).getLsbD (8 * k + z) = (leWord ys i).getLsbD (8 * k + z) := by rw [h]
  have hdiv : (8 * k + z) / 8 = k := by omega
  have hmod : (8 * k + z) % 8 = z := by omega
  rwa [getLsbD_leWord _ _ _ (by omega), getLsbD_leWord _ _ _ (by omega), hdiv, hmod] at hbit

/-- The bytes of block `j` that the lanes take: its whole words. -/
def seen (r j : Nat) (stream : List U8) : List U8 := (stream.drop (j * r)).take (r / 8 * 8)

/-- Two blocks of one length are one step exactly when their whole words are
equal. -/
theorem stepAt_eq_iff {r : Nat} (hr : r ≤ 200) {state : Lanes} {block block' : List U8}
    (hlen : block.length = block'.length) (hfull : r / 8 * 8 ≤ block.length) :
    stepAt r state block = stepAt r state block' ↔ block.take (r / 8 * 8) = block'.take (r / 8 * 8) := by
  unfold stepAt
  rw [keccak_f1600_injective.eq_iff]
  constructor
  · intro h
    refine List.ext_getElem (by simp [hlen]) fun i hi hi' => ?_
    have hi8 : i < r / 8 * 8 := by
      rw [List.length_take] at hi
      omega
    have hlane : (xorWords (r / 8) block state)[i / 8] = (xorWords (r / 8) block' state)[i / 8] := by rw [h]
    unfold xorWords at hlane
    rw [getElem_mapFirst, getElem_mapFirst, if_pos (by omega), if_pos (by omega)] at hlane
    have hword : leWord block (i / 8) = leWord block' (i / 8) := by simpa using hlane
    have hbyte := getD_of_leWord_eq hword (Nat.mod_lt i (by decide))
    have hi' : i < block'.length := by omega
    rw [Nat.div_add_mod, List.getD_eq_getElem _ _ (by omega), List.getD_eq_getElem _ _ hi'] at hbyte
    rw [List.getElem_take, List.getElem_take, hbyte]
  · intro h
    rw [← xorWords_take (Nat.le_of_eq (Nat.mul_comm 8 (r / 8))) block,
      ← xorWords_take (Nat.le_of_eq (Nat.mul_comm 8 (r / 8))) block', h]

/-! ## Any calls but a reset -/

def isReset : SpongeCall → Bool
  | .reset => true
  | _ => false

section Consumers
variable {r : Nat} {b b' : Buffered Lanes U8 r}

/-- Two consumers with the same bytes waiting have them after every call, and have
the same accumulator only if they had it before. -/
theorem consumer_step_merges (htail : b.tail = b'.tail) {call : SpongeCall} (hcall : isReset call = false) :
    (consumer_step b call).1.tail = (consumer_step b' call).1.tail ∧
      ((consumer_step b call).1.acc = (consumer_step b' call).1.acc ↔ b.acc = b'.acc) := by
  cases call with
  | reset => cases hcall
  | absorb data use_avx512 =>
    simp only [consumer_step, Buffered.feed, htail, true_and]
    exact (run_injective r (stepAt_injective r) _ _).eq_iff
  | finalize use_avx512 =>
    simp only [consumer_step, finishAt, htail, true_and]
    exact (stepAt_injective r _).eq_iff

theorem consumer_run_merges {calls : List SpongeCall} (hcalls : ∀ call ∈ calls, isReset call = false)
    (htail : b.tail = b'.tail) :
    (Machine.modelRun consumer_step b calls).1.acc = (Machine.modelRun consumer_step b' calls).1.acc ↔
      b.acc = b'.acc := by
  induction calls generalizing b b' with
  | nil => rfl
  | cons call calls ih =>
    obtain ⟨htail', hacc⟩ := consumer_step_merges htail (hcalls call List.mem_cons_self)
    have hrest := ih (fun call' hmem => hcalls call' (List.mem_cons_of_mem _ hmem)) htail'
    exact hrest.trans hacc

/-! ## Different data -/

theorem seen_eq (j : Nat) (stream : List U8) : seen r j stream = ((stream.drop (j * r)).take r).take (r / 8 * 8) := by
  unfold seen
  rw [List.take_take, Nat.min_eq_left (Nat.div_mul_le_self r 8)]

/-- A whole block is one step in two streams exactly when what is seen of it is one. -/
theorem stepAt_block_iff (hr : r ≤ 200) (state : Lanes) {j : Nat} {xs ys : List U8} (hlen : xs.length = ys.length)
    (hblock : (j + 1) * r ≤ xs.length) :
    stepAt r state ((xs.drop (j * r)).take r) = stepAt r state ((ys.drop (j * r)).take r) ↔
      seen r j xs = seen r j ys := by
  have hwords := Nat.div_mul_le_self r 8
  have hx : ((xs.drop (j * r)).take r).length = r := by
    rw [Nat.succ_mul] at hblock
    simp
    omega
  have hy : ((ys.drop (j * r)).take r).length = r := by
    rw [Nat.succ_mul] at hblock
    simp
    omega
  rw [seen_eq, seen_eq]
  exact stepAt_eq_iff hr (hx.trans hy.symm) (by omega)

/-- So are two last blocks with as many bytes. -/
theorem stepAt_last_iff (hr : r ≤ 200) (state : Lanes) {live live' : List U8} (hlen : live.length = live'.length)
    (hshort : live.length < r) :
    stepAt r state (lastBlock r live) = stepAt r state (lastBlock r live') ↔
      live.take (r / 8 * 8) = live'.take (r / 8 * 8) := by
  have hwords := Nat.div_mul_le_self r 8
  have hshort' : live'.length < r := hlen ▸ hshort
  rw [lastBlock_eq hshort, lastBlock_eq hshort', ← hlen]
  have hpad : ∀ xs : List U8, xs.length = live.length → (xs ++ padAt r live.length).length = r := by
    intro xs hxs
    rw [List.length_append, length_padAt]
    omega
  rw [stepAt_eq_iff hr ((hpad live rfl).trans (hpad live' hlen.symm).symm) (by rw [hpad live rfl]; exact hwords),
    List.take_append, List.take_append, ← hlen]
  exact List.append_left_inj _

theorem finishAt_feed {xs : List U8} {n : Nat} (hn : (b.tail ++ xs).length / r = n) :
    finishAt (b.feed (stepAt r) xs) =
      stepAt r (Blocks.run (stepAt r) r n b.acc (b.tail ++ xs)) (lastBlock r ((b.tail ++ xs).drop (n * r))) := by
  subst hn
  rfl

variable {xs ys : List U8}

/-- Streams that look the same end in the same lanes. -/
theorem finishAt_congr (hr : r ≤ 200) (hlen : xs.length = ys.length)
    (hseen : ∀ j, seen r j (b.tail ++ xs) = seen r j (b.tail ++ ys)) :
    finishAt (b.feed (stepAt r) xs) = finishAt (b.feed (stepAt r) ys) := by
  have hpos := Nat.zero_lt_of_lt b.tail_lt
  have hlen' : (b.tail ++ xs).length = (b.tail ++ ys).length := by simp [hlen]
  generalize hn : (b.tail ++ xs).length / r = n
  have hle : n * r ≤ (b.tail ++ xs).length := hn ▸ Nat.div_mul_le_self _ r
  have hmod : (b.tail ++ xs).length < (n + 1) * r := by
    rw [← hn, Nat.succ_mul]
    exact Nat.lt_div_mul_add hpos
  rw [finishAt_feed hn, finishAt_feed (hlen' ▸ hn)]
  have hrun : ∀ s, Blocks.run (stepAt r) r n s (b.tail ++ xs) = Blocks.run (stepAt r) r n s (b.tail ++ ys) := by
    intro s
    refine run_congr (stepAt r) r ?_ s
    intro j hj t
    have hblock : (j + 1) * r ≤ n * r := Nat.mul_le_mul_right r hj
    exact (stepAt_block_iff hr t hlen' (hblock.trans hle)).2 (hseen j)
  rw [hrun]
  refine (stepAt_last_iff hr _ ?_ ?_).2 (hseen n)
  · rw [List.length_drop, List.length_drop, hlen']
  · rw [Nat.succ_mul] at hmod
    rw [List.length_drop]
    omega

/-- Streams that differ within block `j` end in the same lanes only if that block
looks the same. -/
theorem finishAt_eq_iff (hr : r ≤ 200) (hlen : xs.length = ys.length) {j : Nat}
    (hfront : (b.tail ++ xs).take (j * r) = (b.tail ++ ys).take (j * r))
    (hback : (b.tail ++ xs).drop ((j + 1) * r) = (b.tail ++ ys).drop ((j + 1) * r)) :
    finishAt (b.feed (stepAt r) xs) = finishAt (b.feed (stepAt r) ys) ↔
      seen r j (b.tail ++ xs) = seen r j (b.tail ++ ys) := by
  have hpos := Nat.zero_lt_of_lt b.tail_lt
  have hlen' : (b.tail ++ xs).length = (b.tail ++ ys).length := by simp [hlen]
  generalize hn : (b.tail ++ xs).length / r = n
  have hle : n * r ≤ (b.tail ++ xs).length := hn ▸ Nat.div_mul_le_self _ r
  have hmod : (b.tail ++ xs).length < (n + 1) * r := by
    rw [← hn, Nat.succ_mul]
    exact Nat.lt_div_mul_add hpos
  rw [finishAt_feed hn, finishAt_feed (hlen' ▸ hn)]
  rcases Nat.lt_trichotomy j n with hj | rfl | hj
  · -- a whole block, and the last one is the same
    have hblock : (j + 1) * r ≤ n * r := Nat.mul_le_mul_right r hj
    have hlast : (b.tail ++ xs).drop (n * r) = (b.tail ++ ys).drop (n * r) := by
      have hdrop := congrArg (List.drop (n * r - (j + 1) * r)) hback
      rwa [List.drop_drop, List.drop_drop, Nat.add_sub_cancel' hblock] at hdrop
    rw [hlast, (stepAt_injective r _).eq_iff, run_eq_iff r (stepAt_injective r) hj b.acc hle (hlen' ▸ hle) hfront hback]
    exact stepAt_block_iff hr _ hlen' (hblock.trans hle)
  · -- the last block
    have hrun : Blocks.run (stepAt r) r j b.acc (b.tail ++ xs) = Blocks.run (stepAt r) r j b.acc (b.tail ++ ys) := by
      rw [← run_take _ _ _ _ _ hle, hfront, run_take _ _ _ _ _ (hlen' ▸ hle)]
    rw [hrun]
    refine stepAt_last_iff hr _ ?_ ?_
    · rw [List.length_drop, List.length_drop, hlen']
    · rw [Nat.succ_mul] at hmod
      rw [List.length_drop]
      omega
  · -- the streams end before that block
    have hend : (b.tail ++ xs).length ≤ j * r := by
      have hnj : (n + 1) * r ≤ j * r := Nat.mul_le_mul_right r hj
      omega
    rw [List.take_of_length_le hend, List.take_of_length_le (hlen' ▸ hend)] at hfront
    rw [hfront]
    simp

/-- With whole words, that is all of the block. -/
theorem eq_of_seen (hwords : 8 ∣ r) {j : Nat} (hfront : xs.take (j * r) = ys.take (j * r))
    (hback : xs.drop ((j + 1) * r) = ys.drop ((j + 1) * r)) (hseen : seen r j xs = seen r j ys) : xs = ys := by
  unfold seen at hseen
  rw [Nat.div_mul_cancel hwords] at hseen
  rw [Nat.succ_mul, ← List.drop_drop, ← List.drop_drop] at hback
  rw [← List.take_append_drop (j * r) xs, ← List.take_append_drop (j * r) ys, hfront,
    ← List.take_append_drop r (xs.drop (j * r)), hseen, hback, List.take_append_drop]

end Consumers

/-! ## The sponges -/

/-- A run of two calls on a sponge: data, and the digest. -/
theorem run_absorb_finalize (p : Platform) {r : Nat} {b : Buffered Lanes U8 r} {s : Sha3_512State} (hr : r ≤ 200)
    (h : HoldsAt b s) (data : Slice U8) (use_avx512 use_avx512' : Bool) :
    Returns (run_sponge p s [.absorb data use_avx512, .finalize use_avx512']) (fun out =>
      out.1.state = finishAt (b.feed (stepAt r) data.val) ∧
        out.2 = [none, some (digest (finishAt (b.feed (stepAt r) data.val)))]) :=
  (run_sponge_spec p hr h [.absorb data use_avx512, .finalize use_avx512']).mono fun _ hout => ⟨hout.1.state, hout.2⟩

/-- Two usable sponges of one rate with the same bytes waiting, less than a block,
never merge and never part, whatever the calls: without a reset, their lanes are
equal after a run exactly when they were before. From one such sponge, data that
differs only in bytes that the lanes do not take gives one digest. Data that differs
within one block leaves the same lanes only then, and never with a rate of whole
words. -/
theorem merging_law (p p' : Platform) :
    (∀ (s s' : Sha3_512State) (calls : List SpongeCall), Fits s → s.pos < s.rate →
      s'.rate = s.rate → s'.pos = s.pos → s'.live = s.live → (∀ call ∈ calls, isReset call = false) →
      Returns (run_sponge p s calls) (fun out => Returns (run_sponge p' s' calls) (fun out' =>
        out.1.state = out'.1.state ↔ s.state = s'.state))) ∧
    (∀ (s : Sha3_512State) (data data' : Slice U8) (flags flags' : Bool × Bool), Fits s → s.pos < s.rate →
      data.len = data'.len → (∀ j, seen s.rate j (s.live ++ data.val) = seen s.rate j (s.live ++ data'.val)) →
      Returns (run_sponge p s [.absorb data flags.1, .finalize flags.2]) (fun out =>
        Returns (run_sponge p' s [.absorb data' flags'.1, .finalize flags'.2]) (fun out' => out.2 = out'.2))) ∧
    ∀ (s : Sha3_512State) (data data' : Slice U8) (flags flags' : Bool × Bool) (j : Nat), Fits s → s.pos < s.rate →
      data.len = data'.len →
      (s.live ++ data.val).take (j * s.rate) = (s.live ++ data'.val).take (j * s.rate) →
      (s.live ++ data.val).drop ((j + 1) * s.rate) = (s.live ++ data'.val).drop ((j + 1) * s.rate) →
      Returns (run_sponge p s [.absorb data flags.1, .finalize flags.2]) (fun out =>
        Returns (run_sponge p' s [.absorb data' flags'.1, .finalize flags'.2]) (fun out' =>
          (out.1.state = out'.1.state ↔ seen s.rate j (s.live ++ data.val) = seen s.rate j (s.live ++ data'.val)) ∧
            (8 ∣ s.rate → out.1.state = out'.1.state → data.val = data'.val))) := by
  refine ⟨?_, ?_, ?_⟩
  · intro s s' calls hs hpos hrate' hpos' hlive' hcalls
    obtain ⟨b, hb⟩ := hs.holds hpos
    have hb' : HoldsAt { b with acc := s'.state } s' := ⟨hrate', rfl, hpos'.trans hb.pos, hlive'.trans hb.live⟩
    apply (run_sponge_spec p hs.rate_le hb calls).mono
    intro out hout
    apply (run_sponge_spec p' hs.rate_le hb' calls).mono
    intro out' hout'
    rw [hout.1.state, hout'.1.state, hb.state]
    exact consumer_run_merges hcalls rfl
  · intro s data data' flags flags' hs hpos hlen hseen
    obtain ⟨b, hb⟩ := hs.holds hpos
    rw [hb.live] at hseen
    apply (run_absorb_finalize p hs.rate_le hb data flags.1 flags.2).mono
    intro out hout
    apply (run_absorb_finalize p' hs.rate_le hb data' flags'.1 flags'.2).mono
    intro out' hout'
    rw [hout.2, hout'.2, finishAt_congr hs.rate_le hlen hseen]
  · intro s data data' flags flags' j hs hpos hlen hfront hback
    obtain ⟨b, hb⟩ := hs.holds hpos
    rw [hb.live] at hfront hback ⊢
    apply (run_absorb_finalize p hs.rate_le hb data flags.1 flags.2).mono
    intro out hout
    apply (run_absorb_finalize p' hs.rate_le hb data' flags'.1 flags'.2).mono
    intro out' hout'
    have hiff := finishAt_eq_iff hs.rate_le hlen hfront hback
    rw [hout.1, hout'.1]
    refine ⟨hiff, ?_⟩
    intro hwords hsame
    exact List.append_cancel_left (eq_of_seen hwords hfront hback (hiff.1 hsame))

/-- A rate of 71 bytes is 8 words, and byte 64 of a block is not in them. -/
theorem merging_unseen_byte :
    let p : Platform := ⟨false, false, false, false, false, false, false⟩
    let s := { Sha3_512State.new with rate := 71 }
    let zeros : List U8 := List.replicate 64 0
    Returns (run_sponge p s [.absorb ⟨zeros ++ [1], by decide⟩ false, .finalize false]) (fun out =>
      Returns (run_sponge p s [.absorb ⟨zeros ++ [2], by decide⟩ false, .finalize false]) (fun out' =>
        out.2 = out'.2)) := by
  intro p s zeros
  refine (merging_law p p).2.1 s _ _ (false, false) (false, false) ?_ (by decide) rfl ?_
  · exact ⟨by decide, by decide, by decide, by decide⟩
  · intro j
    have hlive : s.live = [] := live_empty rfl
    rw [hlive, List.nil_append, List.nil_append]
    cases j with
    | zero => simp [seen, s, zeros]
    | succ j =>
      unfold seen
      rw [List.drop_of_length_le, List.drop_of_length_le]
      · simp [s, zeros]
        omega
      · simp [s, zeros]
        omega

end Sha3Kernel
