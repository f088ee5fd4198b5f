import Sha3Kernel.Calls
/-!
# Hashing a stream (`io.rs`)

The reader is a script: the answer to each call of `read`, one after another. A
successful read overwrites the front of the staging buffer and leaves the rest
stale, a failing one may leave anything in it. The byte counter is a `u64`, so
`consume_all` on a stream without end stops at its overflow.
-/

namespace Sha3Kernel

open HashLib HashLib.Bits HashLib.Checked HashLib.Blocks

/-! ## The code -/

def IO_BUF_SIZE : Nat := 8 * 1024

/-- What one `read` does: deliver bytes, or fail with `buf` left in the buffer. -/
inductive ReadResult (ε : Type) where
  | ok (bytes : List U8) (h : bytes.length ≤ IO_BUF_SIZE)
  | err (e : ε) (buf : Vector U8 IO_BUF_SIZE)

/-- `inner` counts the reads so far; read `n` is answered by entry `n` of the
script. -/
structure Sha3Reader where
  inner : Nat
  hasher : Sha3_512Kernel
  buf : Vector U8 IO_BUF_SIZE
  bytes_consumed : Nat

/-- The buffer with `bytes` written to its front. -/
def fill (buf : Vector U8 IO_BUF_SIZE) (bytes : List U8) (h : bytes.length ≤ IO_BUF_SIZE) :
    Vector U8 IO_BUF_SIZE where
  toArray := (bytes ++ buf.toList.drop bytes.length).toArray
  size_toArray := by simp; omega

namespace Sha3Reader
variable {ε : Type}

def new (p : Platform) : Sha3Reader where
  inner := 0
  hasher := .new p
  buf := Vector.replicate IO_BUF_SIZE 0
  bytes_consumed := 0

/-- `self.inner.read(&mut self.buf)` -/
def read (script : Nat → ReadResult ε) (self : Sha3Reader) : Sha3Reader × Except ε Nat :=
  match script self.inner with
  | .ok bytes h => ({ self with inner := self.inner + 1, buf := fill self.buf bytes h }, .ok bytes.length)
  | .err e buf => ({ self with inner := self.inner + 1, buf }, .error e)

def consume_chunk (p : Platform) (script : Nat → ReadResult ε) (self : Sha3Reader) :
    Result (Sha3Reader × Except ε Nat) :=
  match self.read script with
  | (self, .error e) => pure (self, .error e)
  | (self, .ok n) =>
    if n > 0 then do
      let data ← borrow self.buf (by decide) 0 n
      let hasher ← self.hasher.update p data
      let bytes_consumed ← u64_add self.bytes_consumed n
      pure ({ self with hasher, bytes_consumed }, .ok n)
    else
      pure (self, .ok n)

/-- One pass of the loop of `consume_all`. -/
def consume_next (p : Platform) (script : Nat → ReadResult ε) (self : Sha3Reader) :
    Result (Flow Sha3Reader (Sha3Reader × Except ε Nat)) := do
  let (self, n) ← self.consume_chunk p script
  match n with
  | .error e => pure (.done (self, .error e))
  | .ok 0 => pure (.done (self, .ok self.bytes_consumed))
  | .ok _ => pure (.next self)

/-- Every pass but the last adds to a 64-bit counter, which bounds their number. -/
def consume_all (p : Platform) (script : Nat → ReadResult ε) (self : Sha3Reader) :
    Result (Sha3Reader × Except ε Nat) :=
  loop (consume_next p script) (2 ^ 64) self

def finalize (p : Platform) (self : Sha3Reader) : Result (Sha3Reader × Sha3Digest) := do
  let (hasher, hash) ← self.hasher.finalize p
  pure ({ self with hasher }, ⟨hash⟩)

end Sha3Reader

def hash_reader {ε : Type} (p : Platform) (script : Nat → ReadResult ε) : Result (Except ε Sha3Digest) := do
  let wrapper := Sha3Reader.new p
  let (wrapper, total) ← wrapper.consume_all p script
  match total with
  | .error e => pure (.error e)
  | .ok _ => do
    let (_, digest) ← wrapper.finalize p
    pure (.ok digest)

/-! ## What was delivered -/

section Laws
variable {ε : Type}

/-- The bytes of one read; a failing read has none. -/
def ReadResult.bytes : ReadResult ε → List U8
  | .ok bytes _ => bytes
  | .err _ _ => []

/-- What `read` returns. -/
def ReadResult.result : ReadResult ε → Except ε Nat
  | .ok bytes _ => .ok bytes.length
  | .err e _ => .error e

/-- The bytes of the first `n` reads, in order. -/
def delivered (script : Nat → ReadResult ε) : Nat → List U8
  | 0 => []
  | n + 1 => delivered script n ++ (script n).bytes

theorem delivered_mono (script : Nat → ReadResult ε) {m n : Nat} (h : m ≤ n) :
    (delivered script m).length ≤ (delivered script n).length := by
  induction n, h using Nat.le_induction with
  | base => exact Nat.le_refl _
  | succ n _ ih =>
    rw [delivered, List.length_append]
    omega

/-- Reads `n` to `m - 1` all bring bytes. -/
def AllBring (script : Nat → ReadResult ε) (n m : Nat) : Prop :=
  n ≤ m ∧ ∀ k, n ≤ k → k < m → (script k).bytes ≠ []

/-- From read `n` on, read `m` is the first that brings no bytes: a zero-length
read or an error. -/
def FirstEmpty (script : Nat → ReadResult ε) (n m : Nat) : Prop := AllBring script n m ∧ (script m).bytes = []

/-- The hasher has absorbed what the reads so far delivered, and the counter has
counted it. -/
structure Reads (script : Nat → ReadResult ε) (r : Sha3Reader) : Prop where
  absorbed : Holds r.hasher.state (fresh.feed blockStep (delivered script r.inner))
  counted : r.bytes_consumed = (delivered script r.inner).length
  small : r.bytes_consumed < 2 ^ 64

theorem reads_new (p : Platform) (script : Nat → ReadResult ε) : Reads script (Sha3Reader.new p) where
  absorbed := tracks_fresh holds_new
  counted := rfl
  small := Nat.two_pow_pos 64

/-- A read that brings no bytes changes nothing but the buffer. -/
theorem Reads.skip {script : Nat → ReadResult ε} {r : Sha3Reader} (h : Reads script r)
    (hempty : (script r.inner).bytes = []) (buf : Vector U8 IO_BUF_SIZE) :
    Reads script { r with inner := r.inner + 1, buf } := by
  have hsame : delivered script (r.inner + 1) = delivered script r.inner := by
    rw [delivered, hempty, List.append_nil]
  refine ⟨?_, ?_, h.small⟩
  · dsimp only
    rw [hsame]
    exact h.absorbed
  · dsimp only
    rw [hsame]
    exact h.counted

theorem toList_fill_take (buf : Vector U8 IO_BUF_SIZE) (bytes : List U8) (h : bytes.length ≤ IO_BUF_SIZE) :
    (fill buf bytes h).toList.take bytes.length = bytes :=
  List.take_left' rfl

/-! ## One call -/

variable (p : Platform) (script : Nat → ReadResult ε) {r : Sha3Reader}

theorem consume_chunk_err {e : ε} {buf : Vector U8 IO_BUF_SIZE} (h : script r.inner = .err e buf) :
    r.consume_chunk p script = .ok ({ r with inner := r.inner + 1, buf }, .error e) := by
  unfold Sha3Reader.consume_chunk Sha3Reader.read
  rw [h]
  rfl

/-- A failing read leaves the hasher and the counter as they were. -/
theorem consume_chunk_keeps {out : Sha3Reader × Except ε Nat} {e : ε} (h : r.consume_chunk p script = .ok out)
    (he : out.2 = .error e) : out.1.hasher = r.hasher ∧ out.1.bytes_consumed = r.bytes_consumed := by
  cases hs : script r.inner with
  | err e' buf =>
    rw [consume_chunk_err p script hs] at h
    obtain rfl := Except.ok.inj h
    exact ⟨rfl, rfl⟩
  | ok bytes hbytes =>
    have hout : Ends (fun _ => True) (r.consume_chunk p script) (fun out => out.2 = .ok bytes.length) := by
      unfold Sha3Reader.consume_chunk Sha3Reader.read
      rw [hs]
      dsimp only
      split
      · exact (Ends.any _).bind fun _ _ => (Ends.any _).bind fun _ _ => (Ends.any _).bind fun _ _ => rfl
      · rfl
    rw [h] at hout
    exact absurd (he.symm.trans hout) nofun

/-- One read, absorbed and counted; the one fault is a counter past its 64 bits. -/
theorem consume_chunk_spec (h : Reads script r) :
    Ends (fun f => f = .overflow ∧ 2 ^ 64 ≤ (delivered script (r.inner + 1)).length) (r.consume_chunk p script)
      (fun out => Reads script out.1 ∧ out.1.inner = r.inner + 1 ∧ out.2 = (script r.inner).result) := by
  cases hs : script r.inner with
  | err e buf =>
    rw [consume_chunk_err p script hs]
    exact ⟨h.skip (by rw [hs]; rfl) buf, rfl, rfl⟩
  | ok bytes hbytes =>
    unfold Sha3Reader.consume_chunk Sha3Reader.read
    rw [hs]
    dsimp only
    by_cases h0 : bytes.length > 0
    · -- only the front of the buffer is passed on, and it holds this read's bytes
      have hdelivered : delivered script (r.inner + 1) = delivered script r.inner ++ bytes := by
        rw [delivered, hs]
        rfl
      rw [if_pos h0]
      refine (borrow_take _ hbytes).ends.bind fun data hdata => ?_
      rw [toList_fill_take] at hdata
      refine (update_spec p h.absorbed data).ends.bind fun hasher hhasher => ?_
      rw [Buffered.feed_append, hdata, ← hdelivered] at hhasher
      unfold u64_add
      by_cases hfull : r.bytes_consumed + bytes.length < 2 ^ 64
      · rw [if_pos hfull]
        refine ⟨⟨hhasher, ?_, hfull⟩, rfl, rfl⟩
        dsimp only
        rw [hdelivered, List.length_append, h.counted]
      · rw [if_neg hfull]
        refine ⟨rfl, ?_⟩
        rw [hdelivered, List.length_append, ← h.counted]
        omega
    · -- a zero-length read skips the hasher
      rw [if_neg h0]
      have hempty : bytes = [] := List.eq_nil_of_length_eq_zero (by omega)
      exact ⟨h.skip (by rw [hs]; exact hempty) _, rfl, rfl⟩

/-- `consume_all` reads up to the first read that brings no bytes, and returns
the total or that read's error. -/
theorem consume_all_spec (h : Reads script r) :
    Ends (fun f => f = .overflow ∧ ∃ m, AllBring script r.inner m ∧ 2 ^ 64 ≤ (delivered script (m + 1)).length)
      (r.consume_all p script) (fun out => Reads script out.1 ∧ ∃ m, FirstEmpty script r.inner m ∧
        out.1.inner = m + 1 ∧ out.2 = (script m).result.map fun _ => out.1.bytes_consumed) := by
  unfold Sha3Reader.consume_all
  refine loop_ends (fun s => 2 ^ 64 - 1 - s.bytes_consumed)
    (fun s => Reads script s ∧ AllBring script r.inner s.inner) _ ?_ _ r
    ⟨h, Nat.le_refl _, fun k _ _ => by omega⟩ (by omega)
  -- the variant is what is left of the 64-bit counter
  rintro s ⟨hs, hbring⟩
  unfold Sha3Reader.consume_next
  refine ((consume_chunk_spec p script hs).weaken fun f hf => ⟨hf.1, s.inner, hbring, hf.2⟩).bind ?_
  rintro ⟨s', n⟩ ⟨hs', hinner, hn⟩
  dsimp only at hs' hinner hn
  have hcount : s'.bytes_consumed = s.bytes_consumed + (script s.inner).bytes.length := by
    rw [hs'.counted, hinner, delivered, List.length_append, hs.counted]
  cases hread : script s.inner with
  | err e buf =>
    rw [hread] at hn
    subst hn
    exact ⟨hs', s.inner, ⟨hbring, by rw [hread]; rfl⟩, hinner, by rw [hread]; rfl⟩
  | ok bytes hbytes =>
    rw [hread] at hn hcount
    subst hn
    cases bytes with
    | nil => exact ⟨hs', s.inner, ⟨hbring, by rw [hread]; rfl⟩, hinner, by rw [hread]; rfl⟩
    | cons b bs =>
      obtain ⟨hle, hfull⟩ := hbring
      refine ⟨⟨hs', by omega, ?_⟩, ?_⟩
      · intro k hk hlt
        by_cases hlast : k = s.inner
        · subst hlast
          rw [hread]
          exact List.cons_ne_nil b bs
        · exact hfull k hk (by omega)
      · -- the counter grew, and it has an upper bound
        have hsmall := hs'.small
        simp only [ReadResult.bytes, List.length_cons] at hcount
        omega

theorem reader_finalize_spec (h : Reads script r) :
    Returns (r.finalize p) (fun out => out.2 = ⟨hashOf (delivered script r.inner)⟩) := by
  unfold Sha3Reader.finalize
  refine (kernel_finalize_spec p h.absorbed).bind ?_
  rintro ⟨hasher, hash⟩ ⟨-, rfl⟩
  refine .ret ?_
  rw [finish_feed]

/-! ## Any sequence of calls -/

inductive ReaderCall where
  | consume_chunk
  | consume_all

def reader_step (self : Sha3Reader) : ReaderCall → Result (Sha3Reader × Except ε Nat)
  | .consume_chunk => self.consume_chunk p script
  | .consume_all => self.consume_all p script

def run_reader (calls : List ReaderCall) : Result (Sha3Reader × List (Except ε Nat)) :=
  Machine.run (reader_step p script) (.new p) calls

/-- A call that starts at read `n` gets as far as read `m`. -/
def GetsTo (script : Nat → ReadResult ε) : ReaderCall → Nat → Nat → Prop
  | .consume_chunk, n, m => m = n
  | .consume_all, n, m => AllBring script n m

/-- Read `m` is the last of a call that starts at read `n`. -/
def LastRead (script : Nat → ReadResult ε) : ReaderCall → Nat → Nat → Prop
  | .consume_chunk, n, m => m = n
  | .consume_all, n, m => FirstEmpty script n m

/-- What a call returns whose last read is `m`, with `total` bytes so far. -/
def callResult (script : Nat → ReadResult ε) (m total : Nat) : ReaderCall → Except ε Nat
  | .consume_chunk => (script m).result
  | .consume_all => (script m).result.map fun _ => total

/-- The calls, the first of which starts at read `n`, end before read `n'` and
return `outs`. -/
inductive Answers (script : Nat → ReadResult ε) : Nat → List ReaderCall → Nat → List (Except ε Nat) → Prop where
  | nil {n} : Answers script n [] n []
  | cons {n m n' call calls outs} : LastRead script call n m → Answers script (m + 1) calls n' outs →
      Answers script n (call :: calls) n' (callResult script m (delivered script (m + 1)).length call :: outs)

theorem reader_step_spec (h : Reads script r) (call : ReaderCall) :
    Ends (fun f => f = .overflow ∧ ∃ m, GetsTo script call r.inner m ∧ 2 ^ 64 ≤ (delivered script (m + 1)).length)
      (reader_step p script r call) (fun out => Reads script out.1 ∧ ∃ m, LastRead script call r.inner m ∧
        out.1.inner = m + 1 ∧ out.2 = callResult script m (delivered script (m + 1)).length call) := by
  cases call with
  | consume_chunk =>
    refine ((consume_chunk_spec p script h).weaken ?_).mono ?_
    · rintro f ⟨hf, hfull⟩
      exact ⟨hf, r.inner, rfl, hfull⟩
    · rintro out ⟨hout, hinner, hresult⟩
      exact ⟨hout, r.inner, rfl, hinner, hresult⟩
  | consume_all =>
    refine (consume_all_spec p script h).mono ?_
    rintro out ⟨hout, m, hm, hinner, hresult⟩
    rw [hout.counted, hinner] at hresult
    exact ⟨hout, m, hm, hinner, hresult⟩

/-- A call gets no further than its last read. -/
theorem GetsTo.le_last {call : ReaderCall} {n m m' : Nat} (h : GetsTo script call n m)
    (hlast : LastRead script call n m') : m ≤ m' := by
  cases call with
  | consume_chunk =>
    obtain rfl : m = n := h
    exact Nat.le_of_eq hlast.symm
  | consume_all =>
    obtain ⟨⟨hle, -⟩, hempty⟩ := hlast
    by_contra hlt
    exact h.2 m' hle (by omega) hempty

theorem LastRead.unique {call : ReaderCall} {n m m' : Nat} (h : LastRead script call n m)
    (h' : LastRead script call n m') : m = m' := by
  have hgets : ∀ {k}, LastRead script call n k → GetsTo script call n k := by
    intro k hk
    cases call with
    | consume_chunk => exact hk
    | consume_all => exact hk.1
  exact Nat.le_antisymm ((hgets h).le_last script h') ((hgets h').le_last script h)

/-- The call returns if the bytes up to its last read fit the counter. -/
theorem reader_step_returns (h : Reads script r) (call : ReaderCall) {m : Nat}
    (hlast : LastRead script call r.inner m) (hfit : (delivered script (m + 1)).length < 2 ^ 64) :
    Returns (reader_step p script r call) (fun out => Reads script out.1 ∧ out.1.inner = m + 1 ∧
      out.2 = callResult script m (delivered script (m + 1)).length call) := by
  refine ((reader_step_spec p script h call).returns ?_).mono ?_
  · rintro f ⟨-, m', hgets, hfull⟩
    have hle := hgets.le_last script hlast
    have hmono := delivered_mono script (show m' + 1 ≤ m + 1 by omega)
    omega
  · rintro out ⟨hout, m', hlast', hinner, hresult⟩
    obtain rfl := hlast.unique script hlast'
    exact ⟨hout, hinner, hresult⟩

theorem Answers.le {n n' : Nat} {calls : List ReaderCall} {outs : List (Except ε Nat)}
    (h : Answers script n calls n' outs) : n ≤ n' := by
  induction h with
  | nil => exact Nat.le_refl _
  | @cons n m n' call calls outs hlast _ ih =>
    have hnm : n ≤ m := by
      cases call with
      | consume_chunk => exact Nat.le_of_eq (Eq.symm hlast)
      | consume_all => exact hlast.1.1
    omega

/-- Whatever a run of calls returns, it absorbed, counted and answered. -/
theorem run_reader_ends (calls : List ReaderCall) (h : Reads script r) :
    Ends (· = .overflow) (Machine.run (reader_step p script) r calls) (fun out =>
      Reads script out.1 ∧ Answers script r.inner calls out.1.inner out.2) := by
  induction calls generalizing r with
  | nil => exact ⟨h, .nil⟩
  | cons call calls ih =>
    unfold Machine.run
    refine ((reader_step_spec p script h call).weaken fun f hf => hf.1).bind ?_
    rintro ⟨r', out⟩ ⟨hr', m, hlast, hinner, rfl⟩
    refine (ih hr').bind ?_
    rintro ⟨r'', outs⟩ ⟨hr'', hanswers⟩
    dsimp only at hinner hanswers
    rw [hinner] at hanswers
    exact ⟨hr'', .cons hlast hanswers⟩

/-- A run returns if every call in it has a last read and the bytes fit the counter. -/
theorem run_reader_returns {n : Nat} {calls : List ReaderCall} {outs : List (Except ε Nat)} (h : Reads script r)
    (hanswers : Answers script r.inner calls n outs) (hfit : (delivered script n).length < 2 ^ 64) :
    Returns (Machine.run (reader_step p script) r calls) (fun out => out.1.inner = n ∧ out.2 = outs) := by
  induction calls generalizing r outs with
  | nil =>
    cases hanswers
    exact .ret ⟨rfl, rfl⟩
  | cons call calls ih =>
    obtain _ | ⟨hlast, hrest⟩ := hanswers
    have hle := delivered_mono script (hrest.le script)
    unfold Machine.run
    refine (reader_step_returns p script h call hlast (by omega)).bind ?_
    rintro ⟨r', out⟩ ⟨hr', hinner, rfl⟩
    dsimp only at hr' hinner
    rw [← hinner] at hrest
    refine (ih hr' hrest).bind ?_
    rintro ⟨r'', outs'⟩ ⟨hinner', rfl⟩
    exact .ret ⟨hinner', rfl⟩

/-- `hash_reader` returns the digest of all the bytes before the first read that
brings none, or the error of that read. -/
theorem hash_reader_eq {m : Nat} (hm : FirstEmpty script 0 m) (hfit : (delivered script m).length < 2 ^ 64) :
    hash_reader p script = .ok ((script m).result.map fun _ => ⟨hashOf (delivered script m)⟩) := by
  have hsame : delivered script (m + 1) = delivered script m := by
    rw [delivered, hm.2, List.append_nil]
  have hcall := reader_step_returns p script (reads_new p script) .consume_all hm (by rwa [hsame])
  apply Returns.eq_ok
  unfold hash_reader
  refine hcall.bind ?_
  rintro ⟨wrapper, total⟩ ⟨hreads, hinner, htotal⟩
  dsimp only [callResult] at hreads hinner htotal ⊢
  cases hread : script m with
  | err e buf =>
    rw [hread] at htotal
    subst htotal
    exact .ret rfl
  | ok bytes hbytes =>
    rw [hread] at htotal
    subst htotal
    refine (reader_finalize_spec p script hreads).bind ?_
    rintro ⟨wrapper', digest⟩ rfl
    refine .ret ?_
    rw [hinner, hsame]
    rfl

/-- After any calls, repeated past errors and ends or not: every call answered
from the reads it made, the counter is the number of bytes delivered, and
`finalize` returns their digest. The calls return unless one has no last read
or the bytes outgrow the counter. A failing read changes neither the hasher nor
the counter. -/
theorem reader_law (calls : List ReaderCall) :
    Ends (· = .overflow) (run_reader p script calls) (fun r =>
      let stream := delivered script r.1.inner
      Answers script 0 calls r.1.inner r.2 ∧ r.1.bytes_consumed = stream.length ∧
        Returns (r.1.finalize p) (fun out => out.2 = ⟨hashOf stream⟩ ∧ IsHashOf p out.2.bytes stream)) ∧
    (∀ (n : Nat) (outs : List (Except ε Nat)), Answers script 0 calls n outs →
      (delivered script n).length < 2 ^ 64 →
      Returns (run_reader p script calls) (fun r => r.1.inner = n ∧ r.2 = outs)) ∧
    (∀ (r : Sha3Reader) (out : Sha3Reader × Except ε Nat) (e : ε), r.consume_chunk p script = .ok out →
      out.2 = .error e → out.1.hasher = r.hasher ∧ out.1.bytes_consumed = r.bytes_consumed) ∧
    ∀ m : Nat, FirstEmpty script 0 m → (delivered script m).length < 2 ^ 64 →
      hash_reader p script = .ok ((script m).result.map fun _ => ⟨hashOf (delivered script m)⟩) := by
  refine ⟨?_, ?_, fun r out e => consume_chunk_keeps p script, fun m => hash_reader_eq p script⟩
  · refine (run_reader_ends p script calls (reads_new p script)).mono ?_
    rintro ⟨r, outs⟩ ⟨hreads, hanswers⟩
    refine ⟨hanswers, hreads.counted, (reader_finalize_spec p script hreads).mono ?_⟩
    rintro out hout
    rw [hout]
    exact ⟨rfl, isHashOf p _⟩
  · intro n outs hanswers hfit
    exact run_reader_returns p script (reads_new p script) hanswers hfit

end Laws

end Sha3Kernel
