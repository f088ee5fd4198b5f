import Sha3Kernel.AbstractHasher
import Sha3Kernel.Files
/-!
# The integrity stress test (`examples/large_file_integrity.rs`)

A synthetic image is a source of pseudo-random bytes. The test hashes one three ways
and asserts that the digests are equal. Timing and printing are left out.
-/

namespace Sha3Kernel

open HashLib HashLib.Bits HashLib.Checked

variable {σ ε : Type}

/-! ## The code -/

def IMAGE_SIZE : Nat := 1024 * 1024 * 1024

def GEN_CHUNK : Nat := 64 * 1024

structure SyntheticImage where
  remaining : Nat
  seed : U64

namespace SyntheticImage

def new (size : Nat) : SyntheticImage where
  remaining := size
  seed := 0xDEADBEEFCAFEBABE

/-- The xorshift step before each byte. -/
def next_seed (seed : U64) : U64 :=
  let seed := seed ^^^ seed <<< 13
  let seed := seed ^^^ seed >>> 7
  seed ^^^ seed <<< 17

/-- `for byte in buf[..n].iter_mut()`: the last seed and the bytes. -/
def write_bytes : Nat → U64 → U64 × List U8
  | 0, seed => (seed, [])
  | n + 1, seed =>
    let seed := next_seed seed
    let (last, bytes) := write_bytes n seed
    (last, seed.setWidth 8 :: bytes)

@[simp] theorem length_write_bytes (n : Nat) (seed : U64) : (write_bytes n seed).2.length = n := by
  induction n generalizing seed with
  | zero => rfl
  | succ n ih => simp [write_bytes, ih]

theorem write_bytes_le (len remaining : Nat) (seed : U64) : (write_bytes (min len remaining) seed).2.length ≤ len := by
  simp

def source (ε : Type) : Source SyntheticImage U8 ε where
  read self len :=
    if self.remaining = 0 then
      (self, .ok Piece.none)
    else
      let n := min len self.remaining
      (⟨self.remaining - n, (write_bytes n self.seed).1⟩,
        .ok ⟨(write_bytes n self.seed).2, write_bytes_le len self.remaining self.seed⟩)

end SyntheticImage

/-- `expect` panics on an error. -/
def expect {α : Type} : Except ε α → Result α
  | .ok x => .ok x
  | .error _ => .error .assertion

theorem gen_chunk_le : GEN_CHUNK ≤ isizeMax := by decide

/-- What the loop of the third test changes. -/
structure Incremental (σ : Type) where
  img : σ
  hasher : Sha3_512Kernel
  buf : Vector U8 GEN_CHUNK

/-- One pass of that loop. -/
def update_next (p : Platform) (src : Source σ U8 ε) (s : Incremental σ) :
    Result (Flow (Incremental σ) Sha3_512Kernel) := do
  let (img, answer) := src.read s.img GEN_CHUNK
  let piece ← expect answer
  let buf := piece.write s.buf
  let n := piece.1.length
  if n = 0 then
    pure (.done s.hasher)
  else do
    let data ← borrow buf gen_chunk_le 0 n
    let hasher ← s.hasher.update p data
    pure (.next { img, hasher, buf })

def update_all (p : Platform) (src : Source σ U8 ε) (img : σ) : Result Sha3_512Kernel :=
  loop (update_next p src) (2 ^ 64) { img, hasher := .new p, buf := Vector.replicate GEN_CHUNK 0 }

/-- What `main` reports. -/
structure Report where
  bytes_read : Nat
  digest_stream : Sha3Digest
  digest_conv : Sha3Digest
  digest_inc : Sha3Digest

/-- `main`, on an image of any size. -/
def integrity_test (ε : Type) (p : Platform) (left : Nat → Vector U8 IO_BUF_SIZE) (size : Nat) : Result Report := do
  let src := SyntheticImage.source ε
  let image := SyntheticImage.new size
  let reader := Sha3Reader.new p
  let (reader, total) ← reader.consume_all p (script src left image)
  let bytes_read ← expect total
  let (_, digest_stream) ← reader.finalize p
  let image2 := SyntheticImage.new size
  let conv ← hash_reader p (script src left image2)
  let digest_conv ← expect conv
  debug_assert (digest_stream = digest_conv)
  let img3 := SyntheticImage.new size
  let hasher ← update_all p src img3
  let (_, digest_inc) ← hasher.finalize_digest p
  debug_assert (digest_stream = digest_inc)
  pure { bytes_read, digest_stream, digest_conv, digest_inc }

/-! ## The image -/

namespace SyntheticImage

theorem write_bytes_add (m n : Nat) (seed : U64) :
    write_bytes (m + n) seed = ((write_bytes n (write_bytes m seed).1).1,
      (write_bytes m seed).2 ++ (write_bytes n (write_bytes m seed).1).2) := by
  induction m generalizing seed with
  | zero => simp [write_bytes]
  | succ m ih =>
    rw [Nat.succ_add]
    simp [write_bytes, ih]

/-- The bytes still to come; the end is never an error. -/
def rest (self : SyntheticImage) : Rest U8 ε := ⟨(write_bytes self.remaining self.seed).2, .ok ()⟩

/-- A read writes the next bytes of the image, as many as there are and as there is
room for. -/
theorem rest_read (ε : Type) (self : SyntheticImage) (len : Nat) :
    (rest self : Rest U8 ε).elements =
      elements ((source ε).read self len).2 ++ (rest ((source ε).read self len).1 : Rest U8 ε).elements := by
  unfold source rest elements
  by_cases h : self.remaining = 0
  · simp [h, Piece.none, write_bytes]
  · have hsplit : self.remaining = min len self.remaining + (self.remaining - min len self.remaining) := by omega
    simp only [h, if_false]
    conv_lhs => rw [hsplit, write_bytes_add]

theorem source_spells : (source ε).Spells rest := by
  intro self len hlen
  have hread := rest_read ε self len
  by_cases h : self.remaining = 0
  · right
    simp [source, rest, h, write_bytes, Except.map]
  · left
    refine ⟨⟨_, write_bytes_le len self.remaining self.seed⟩, by simp only [source, h, if_false], ?_, ?_⟩
    · intro hnone
      have hlength := congrArg List.length hnone
      simp only [length_write_bytes, List.length_nil] at hlength
      omega
    · simp only [source, h, if_false, elements] at hread ⊢
      simp only [rest] at hread ⊢
      rw [← hread]

theorem elements_read (self : SyntheticImage) (len : Nat) :
    elements ((source ε).read self len).2 = (write_bytes (min len self.remaining) self.seed).2 := by
  unfold source elements
  by_cases h : self.remaining = 0
  · simp [h, Piece.none, write_bytes]
  · simp [h]

/-- Whatever buffers are handed in, one after another, they are filled with the image
from its front. -/
theorem reads_eq (self : SyntheticImage) (lens : List Nat) :
    (source ε).reads self lens = (write_bytes self.remaining self.seed).2.take lens.sum := by
  induction lens generalizing self with
  | nil => simp [Source.reads]
  | cons len lens ih =>
    have hread : (write_bytes self.remaining self.seed).2 = _ := rest_read ε self len
    have hfirst : (write_bytes (min len self.remaining) self.seed).2.take (len + lens.sum) =
        (write_bytes (min len self.remaining) self.seed).2 :=
      List.take_of_length_le (by simp only [length_write_bytes]; omega)
    rw [Source.reads, ih, hread, List.sum_cons, elements_read, List.take_append, hfirst, length_write_bytes]
    by_cases hlen : len ≤ self.remaining
    · simp [rest, hlen]
    · -- the image ends in this buffer
      have hend : ((source ε).read self len).1.remaining = 0 := by
        unfold source
        dsimp only
        split
        · assumption
        · dsimp only
          omega
      simp [rest, hend, write_bytes]

theorem next_seed_ne_zero {seed : U64} (h : seed ≠ 0) : next_seed seed ≠ 0 := by
  intro hzero
  unfold next_seed at hzero
  have h₂ := eq_zero_of_xor_shiftLeft (by decide) hzero
  have h₁ := eq_zero_of_xor_ushiftRight (by decide) h₂
  exact h (eq_zero_of_xor_shiftLeft (by decide) h₁)

/-- The generator never reaches the seed it would stay at. -/
theorem write_bytes_ne_zero (n : Nat) {seed : U64} (h : seed ≠ 0) : (write_bytes n seed).1 ≠ 0 := by
  induction n generalizing seed with
  | zero => exact h
  | succ n ih => exact ih (next_seed_ne_zero h)

end SyntheticImage

/-! ## The three ways -/

section Laws
variable (p : Platform) {src : Source σ U8 ε} {rest : σ → Rest U8 ε}

theorem update_next_spec (h : src.Spells rest) {message : List U8} {config : PerformanceConfig} {s : Incremental σ}
    (hs : Stands p ⟨message, config⟩ s.hasher) (hend : (rest s.img).ending = .ok ()) :
    Returns (update_next p src s) (Flow.Post
      (fun s' => ∃ piece, piece ≠ [] ∧ rest s.img = { rest s'.img with elements := piece ++ (rest s'.img).elements } ∧
        Stands p ⟨message ++ piece, config⟩ s'.hasher)
      (fun hasher => (rest s.img).elements = [] ∧ Stands p ⟨message, config⟩ hasher)) := by
  unfold update_next
  rcases hstep : src.read s.img GEN_CHUNK with ⟨img, answer⟩
  rcases h s.img GEN_CHUNK (by decide) with ⟨piece, hread, hpiece, hrest⟩ | ⟨hdone, hread⟩
  · rw [hstep] at hread hrest
    dsimp only at hread hrest
    subst hread
    have hn : piece.1.length ≠ 0 := by simpa using hpiece
    simp only [expect, ok_bind, hn, if_false]
    have hdata : Returns (borrow (piece.write s.buf) gen_chunk_le 0 piece.1.length)
        (fun data => data.val = piece.1) := by
      have htake := Piece.take_write piece s.buf
      exact (borrow_take gen_chunk_le piece.2).mono fun data hdata => hdata.trans htake
    apply hdata.bind
    intro data hdata
    apply (update_stands p hs data).bind
    intro hasher hhasher
    rw [hdata] at hhasher
    exact .ret ⟨piece.1, hpiece, hrest, hhasher⟩
  · rw [hstep, hend] at hread
    dsimp only at hread
    subst hread
    exact .ret ⟨hdone, hs⟩

/-- The loop feeds a new hasher all that the source spells. -/
theorem update_all_spec (h : src.Spells rest) (img : σ) (hend : (rest img).ending = .ok ())
    (hfit : (rest img).elements.length < 2 ^ 64) :
    Returns (update_all p src img) (Stands p ⟨(rest img).elements, .default⟩) := by
  unfold update_all
  refine loop_spec (fun s => (rest s.img).elements.length)
    (fun s => ∃ message, Stands p ⟨message, .default⟩ s.hasher ∧
      rest img = { rest s.img with elements := message ++ (rest s.img).elements }) _ ?_ _ _ ?_ hfit
  · intro s hs
    obtain ⟨message, hstands, hrest⟩ := hs
    have hends : (rest s.img).ending = .ok () := by
      rw [hrest] at hend
      exact hend
    refine (update_next_spec p h hstands hends).mono ?_
    intro flow hflow
    cases flow with
    | next s' =>
      obtain ⟨piece, hpiece, hsplit, hstands'⟩ := hflow
      refine ⟨⟨message ++ piece, hstands', ?_⟩, ?_⟩
      · rw [hrest, hsplit, List.append_assoc]
      · -- a piece is not empty, so less is left
        have hpos := List.length_pos_iff.2 hpiece
        rw [hsplit, List.length_append]
        omega
    | done hasher =>
      obtain ⟨hdone, hstands'⟩ := hflow
      have hall : (rest img).elements = message := by
        rw [hrest, hdone, List.append_nil]
      rw [hall]
      exact hstands'
  · exact ⟨[], stands_with_config p _, by simp⟩

/-- The image of a size. -/
def image (size : Nat) : List U8 := (SyntheticImage.write_bytes size (SyntheticImage.new size).seed).2

theorem integrity_test_eq (left : Nat → Vector U8 IO_BUF_SIZE) {size : Nat} (hsize : size ≤ usizeMax) :
    integrity_test ε p left size = .ok ⟨size, ⟨hashOf (image size)⟩, ⟨hashOf (image size)⟩, ⟨hashOf (image size)⟩⟩ := by
  have hspells : (SyntheticImage.source ε).Spells SyntheticImage.rest := SyntheticImage.source_spells
  have hlen : (image size).length = size := SyntheticImage.length_write_bytes size _
  have hfit : (image size).length < 2 ^ 64 := by
    rw [hlen]
    unfold usizeMax at hsize
    omega
  apply Returns.eq_ok
  unfold integrity_test
  -- the reader
  apply (consume_all_spells p left hspells (SyntheticImage.new size) hfit).bind
  intro out hout
  obtain ⟨reader, total⟩ := out
  obtain ⟨htotal, hfinalize⟩ := hout
  dsimp only at htotal hfinalize
  subst htotal
  apply Returns.bind (.ret rfl)
  rintro _ rfl
  apply hfinalize.bind
  intro out hout
  obtain ⟨_, digest_stream⟩ := out
  dsimp only at hout
  subst hout
  -- `hash_reader`
  apply Returns.bind (.of_eq (hash_reader_spells p left hspells (SyntheticImage.new size) hfit) rfl)
  rintro _ rfl
  apply Returns.bind (.ret rfl)
  rintro _ rfl
  apply Returns.bind (.of_eq (debug_assert_eq (decide_eq_true rfl)) rfl)
  rintro _ -
  -- the loop of updates
  apply (update_all_spec p hspells (SyntheticImage.new size) rfl hfit).bind
  intro hasher hhasher
  apply (finalize_digest_stands p hhasher).bind
  intro out hout
  obtain ⟨_, digest_inc⟩ := out
  obtain ⟨-, hdigest⟩ := hout
  dsimp only at hdigest
  subst hdigest
  apply Returns.bind (.of_eq (debug_assert_eq (decide_eq_true rfl)) rfl)
  rintro _ -
  refine .ret ?_
  congr 1

/-- The stress test passes on every platform and for every size a `usize` can hold:
no assertion fails, and the three ways read the whole image and agree on its
digest. The image is the same whatever buffers it is read into, and its generator
never gets stuck at zero. -/
theorem integrity_law (left : Nat → Vector U8 IO_BUF_SIZE) :
    (∀ size, size ≤ usizeMax → integrity_test ε p left size =
      .ok ⟨size, ⟨hashOf (image size)⟩, ⟨hashOf (image size)⟩, ⟨hashOf (image size)⟩⟩) ∧
    (∀ (size : Nat) (lens : List Nat),
      (SyntheticImage.source ε).reads (SyntheticImage.new size) lens = (image size).take lens.sum) ∧
    ∀ size n, (SyntheticImage.write_bytes n (SyntheticImage.new size).seed).1 ≠ 0 := by
  refine ⟨fun size hsize => integrity_test_eq p left hsize, ?_, ?_⟩
  · intro size lens
    exact SyntheticImage.reads_eq _ lens
  · intro size n
    have hseed : (0xDEADBEEFCAFEBABE : U64) ≠ 0 := by decide
    exact SyntheticImage.write_bytes_ne_zero n hseed

/-- `main` on a machine without vector code. -/
theorem integrity_main :
    let p : Platform := ⟨false, false, false, false, false, false, false⟩
    let digest : Sha3Digest := ⟨hashOf (image IMAGE_SIZE)⟩
    integrity_test Empty p (fun _ => Vector.replicate IO_BUF_SIZE 0) IMAGE_SIZE =
      .ok ⟨IMAGE_SIZE, digest, digest, digest⟩ :=
  (integrity_law _ _).1 IMAGE_SIZE (by decide)

end Laws

end Sha3Kernel
