import Sha3Kernel.Batch
/-!
# Two ways to pad

`pad_message` writes the padding into a fresh buffer, `finalize` into the one it
has been reusing. The blocks of the first are the blocks that reach the lanes in
the second, and no two messages pad to the same bytes.
-/

namespace Sha3Kernel

open HashLib HashLib.Bits HashLib.Checked HashLib.Blocks HashLib.Erase

/-! ## A message in pieces -/

/-- Reset, absorb the pieces one after another, each with its own flag, and finalize. -/
def hash_pieces (p : Platform) (self : Sha3_512State) (pieces : List (Slice U8 × Bool)) (use_avx512 : Bool) :
    Result (Sha3_512State × Sha3_512Hash) := do
  let self ← pieces.foldlM (fun self piece => self.absorb p piece.1 piece.2) self.reset
  self.finalize p use_avx512

/-- One piece, its blocks appended to those of the pieces before it. -/
def absorb_piece_traced (p : Platform) (r : Sha3_512State × Trace) (piece : Slice U8 × Bool) :
    Result (Sha3_512State × Trace) := do
  let (self, trace) ← r.1.absorb_traced p piece.1 piece.2
  pure (self, r.2 ++ trace)

/-- `hash_pieces`, recording every block that is XORed into the lanes. -/
def hash_pieces_traced (p : Platform) (self : Sha3_512State) (pieces : List (Slice U8 × Bool)) (use_avx512 : Bool) :
    Result ((Sha3_512State × Sha3_512Hash) × Trace) := do
  let (self, trace) ← pieces.foldlM (absorb_piece_traced p) (self.reset, [])
  let (r, last) ← self.finalize_traced p use_avx512
  pure (r, trace ++ last)

theorem absorb_piece_erases (p : Platform) (r : Sha3_512State × Trace) (piece : Slice U8 × Bool) :
    Erases Prod.fst (absorb_piece_traced p r piece) (r.1.absorb p piece.1 piece.2) := by
  rw [← bind_pure (r.1.absorb p piece.1 piece.2)]
  exact (Sha3_512State.absorb_erases p r.1 piece.1 piece.2).bind fun _ => .ret _

theorem hash_pieces_erases (p : Platform) (self : Sha3_512State) (pieces : List (Slice U8 × Bool))
    (use_avx512 : Bool) :
    Erases Prod.fst (hash_pieces_traced p self pieces use_avx512) (hash_pieces p self pieces use_avx512) := by
  have hpieces : Erases Prod.fst (pieces.foldlM (absorb_piece_traced p) (self.reset, []))
      (pieces.foldlM (fun self piece => self.absorb p piece.1 piece.2) self.reset) :=
    Erases.foldlM (e := Prod.fst) (absorb_piece_erases p) pieces (self.reset, [])
  unfold hash_pieces_traced hash_pieces
  refine hpieces.bind fun r => ?_
  rw [← bind_pure (r.1.finalize p use_avx512)]
  exact (Sha3_512State.finalize_erases p r.1 use_avx512).bind fun _ => .ret _

/-- The bytes of the pieces, joined. -/
def joined (pieces : List (Slice U8 × Bool)) : List U8 := (pieces.map fun piece => piece.1.val).flatten

theorem Takes.inv {s s' : Sha3_512State} {bytes : List U8} {trace : Trace} (h : Takes 72 s bytes s' trace) : Inv s' :=
  ⟨h.rate, h.pos⟩

theorem absorb_pieces_takes (p : Platform) (pieces : List (Slice U8 × Bool)) {s : Sha3_512State} {bytes : List U8}
    {r : Sha3_512State × Trace} (h : Takes 72 s bytes r.1 r.2) :
    Returns (pieces.foldlM (absorb_piece_traced p) r) (fun r' => Takes 72 s (bytes ++ joined pieces) r'.1 r'.2) := by
  induction pieces generalizing bytes r with
  | nil =>
    refine .ret ?_
    rwa [joined, List.map_nil, List.flatten_nil, List.append_nil]
  | cons piece pieces ih =>
    rw [List.foldlM_cons]
    have hstep : Returns (absorb_piece_traced p r piece) (fun r' => Takes 72 s (bytes ++ piece.1.val) r'.1 r'.2) := by
      have htakes := absorb_traced_takes p piece.2 piece.1 h.inv.fits
      rw [h.rate] at htakes
      exact htakes.bind fun r' hr' => .ret (h.trans hr')
    refine hstep.bind fun r' hr' => ?_
    rw [joined, List.map_cons, List.flatten_cons, ← List.append_assoc]
    exact ih hr'

/-! ## The same blocks -/

theorem chunks_flatten {α : Type} {n : Nat} (hn : 0 < n) {blocks : List (List α)}
    (h : ∀ block ∈ blocks, block.length = n) : chunks n blocks.flatten = blocks := by
  induction blocks with
  | nil =>
    unfold chunks
    simp
  | cons block blocks ih =>
    have hblock : block.length = n := h block List.mem_cons_self
    have hlen : 0 < (block :: blocks).flatten.length := by
      rw [List.flatten_cons, List.length_append]
      omega
    rw [chunks, if_pos ⟨hn, hlen⟩, List.flatten_cons, List.take_left' hblock, List.drop_left' hblock,
      ih fun b hb => h b (List.mem_cons_of_mem _ hb)]

/-- The last block of a sponge that took `bytes` from nothing completes its blocks
to the padded message. -/
theorem Takes.padded {s s' : Sha3_512State} {bytes : List U8} {trace : Trace} (hs : s.pos = 0)
    (h : Takes 72 s bytes s' trace) : chunks 72 (paddedMessage bytes) = trace ++ [lastBlock 72 s'.live] := by
  obtain ⟨hwhole, hspells, -⟩ := h.traced (by decide)
  have hlive := h.live_lt (by decide)
  rw [live_empty hs, List.nil_append] at hspells
  -- the blocks are whole, so what is live is the rest of the message
  have hmod : bytes.length % 72 = s'.live.length := by
    rw [← hspells, List.length_append, length_flatten_of hwhole]
    omega
  have hflat : paddedMessage bytes = (trace ++ [lastBlock 72 s'.live]).flatten := by
    rw [paddedMessage, hmod, ← hspells, List.flatten_append, List.flatten_singleton, lastBlock_eq hlive, padTo,
      List.append_assoc]
  rw [hflat]
  refine chunks_flatten (by decide) fun block hblock => ?_
  rcases List.mem_append.1 hblock with hmem | hmem
  · exact hwhole block hmem
  · rw [List.mem_singleton.1 hmem, length_lastBlock hlive]

/-- The blocks of a run over pieces are those of the padded message, and the lanes
are what these blocks make of zeros. -/
theorem hash_pieces_spec (p : Platform) {s : Sha3_512State} (h : s.rate = 72) (pieces : List (Slice U8 × Bool))
    (use_avx512 : Bool) :
    Returns (hash_pieces_traced p s pieces use_avx512) (fun r =>
      r.2 = chunks 72 (paddedMessage (joined pieces)) ∧
        r.1.1.state = r.2.foldl blockStep (Vector.replicate 25 0)) := by
  have hinv : Inv s.reset := (holds_reset h).inv
  unfold hash_pieces_traced
  have hstart : Takes 72 s.reset [] s.reset [] := .keep h hinv.pos (List.append_nil _).symm rfl
  refine (absorb_pieces_takes p pieces hstart).bind ?_
  rintro ⟨s', trace⟩ hs'
  rw [List.nil_append] at hs'
  have hfin := finalize_traced_finalizes p use_avx512 hs'.inv.fits
  rw [hs'.rate] at hfin
  refine hfin.bind ?_
  rintro ⟨⟨s'', hash⟩, last⟩ ⟨hs'', hlast⟩
  dsimp only at hs' hs'' hlast
  have hwhole : (lastBlock 72 s'.live).take (72 / 8 * 8) = lastBlock 72 s'.live :=
    List.take_of_length_le (Nat.le_of_eq (length_lastBlock (hs'.live_lt (by decide))))
  have htrace : trace ++ last = chunks 72 (paddedMessage (joined pieces)) := by
    rw [hs'.padded rfl, hlast, hwhole]
  refine .ret ⟨htrace, ?_⟩
  dsimp only
  rw [hs''.lanes, hlast, hwhole, List.foldl_append, List.foldl_cons, List.foldl_nil, (hs'.traced (by decide)).2.2]
  rfl

/-! ## No two messages pad alike -/

theorem paddedMessage_injective : Function.Injective paddedMessage := by
  intro xs ys h
  exact append_padAt_inj h

/-- The length of the padded message is the next multiple of 72. -/
theorem length_paddedMessage_isLeast (xs : List U8) :
    IsLeast {n | 72 ∣ n ∧ xs.length < n} (paddedMessage xs).length := by
  rw [length_paddedMessage]
  constructor
  · exact ⟨Nat.dvd_mul_left 72 _, by omega⟩
  · rintro n ⟨⟨k, rfl⟩, hlt⟩
    omega

/-- The two paddings agree: `pad_message` returns the next multiple of 72 bytes,
and its blocks are those that reach the lanes, in order, when the message is
absorbed in any pieces and finalized. The padding of a message determines it. -/
theorem paddings_agree :
    (∀ m : Slice U8, Returns (pad_message m) (fun padded =>
      IsLeast {n | 72 ∣ n ∧ m.len < n} padded.length ∧
      ∀ (p : Platform) (s : Sha3_512State) (pieces : List (Slice U8 × Bool)) (use_avx512 : Bool),
        s.rate = SHA3_512_RATE → joined pieces = m.val →
          Erases Prod.fst (hash_pieces_traced p s pieces use_avx512) (hash_pieces p s pieces use_avx512) ∧
          Returns (hash_pieces_traced p s pieces use_avx512) (fun r =>
            r.2 = chunks 72 padded ∧ r.1.1.state = r.2.foldl blockStep (Vector.replicate 25 0)))) ∧
    ∀ m₁ m₂ : Slice U8, pad_message m₁ = pad_message m₂ → m₁ = m₂ := by
  constructor
  · intro m
    refine .of_eq (pad_message_eq m) ⟨?_, ?_⟩
    · rw [← m.val_length]
      exact length_paddedMessage_isLeast m.val
    · intro p s pieces use_avx512 hrate hjoined
      refine ⟨hash_pieces_erases p s pieces use_avx512, ?_⟩
      rw [← hjoined]
      exact hash_pieces_spec p hrate pieces use_avx512
  · rintro ⟨xs, hxs⟩ ⟨ys, hys⟩ h
    rw [pad_message_eq, pad_message_eq] at h
    obtain rfl : xs = ys := paddedMessage_injective (Except.ok.inj h)
    rfl

/-- Three pieces, one of them empty, on different paths. -/
theorem paddings_agree_split :
    Returns (pad_message ⟨[1, 2, 3], by decide⟩) (fun padded =>
      Returns (hash_pieces_traced ⟨true, true, true, true, true, true, true⟩ .new
        [(⟨[1], by decide⟩, true), (⟨[], by decide⟩, false), (⟨[2, 3], by decide⟩, false)] true) (fun r =>
          r.2 = chunks 72 padded)) := by
  refine (paddings_agree.1 _).mono fun padded h => ?_
  obtain ⟨-, hreturns⟩ := h.2 _ .new [(⟨[1], by decide⟩, true), (⟨[], by decide⟩, false), (⟨[2, 3], by decide⟩, false)]
    true rfl rfl
  exact hreturns.mono fun r hr => hr.1

end Sha3Kernel
