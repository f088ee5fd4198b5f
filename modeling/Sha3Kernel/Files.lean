import Sha3Kernel.Reader
import Sha3Kernel.HashLib.Source
/-!
# Hashing a source, hashing a file (`hash_file` in `io.rs`)

`hash_reader` reads its source into room for 8 KiB, so the script it sees is what the
source answers to such reads. A file is a source that the file system may refuse
to open; `hash_file` puts a buffer in front of it.
-/

namespace Sha3Kernel

open HashLib HashLib.Bits HashLib.Checked

variable {σ ε Path : Type}

/-! ## The code -/

/-- The reads of a `Sha3Reader` that wraps the source. What a failing read leaves in
the staging buffer is open. -/
def script (src : Source σ U8 ε) (left : Nat → Vector U8 IO_BUF_SIZE) (inner : σ) (n : Nat) : ReadResult ε :=
  match src.answer IO_BUF_SIZE inner n with
  | .ok piece => .ok piece.1 piece.2
  | .error e => .err e (left n)

/-- The file system answers `open` with a file or an error. The buffer's capacity is
that of `BufReader::new`, in std 8 KiB. -/
def hash_file (p : Platform) (fopen : Path → Except ε σ) (file : Source σ U8 ε) (capacity : Nat)
    (left : Nat → Vector U8 IO_BUF_SIZE) (path : Path) : Result (Except ε Sha3Digest) :=
  match fopen path with
  | .error e => pure (.error e)
  | .ok handle => hash_reader p (script (file.buffered capacity) left ⟨handle, []⟩)

/-! ## Any source -/

section Laws
variable (p : Platform) (src : Source σ U8 ε) (left : Nat → Vector U8 IO_BUF_SIZE)

theorem script_bytes (inner : σ) (n : Nat) :
    (script src left inner n).bytes = elements (src.answer IO_BUF_SIZE inner n) := by
  unfold script
  cases src.answer IO_BUF_SIZE inner n with
  | ok piece => rfl
  | error e => rfl

theorem script_result (inner : σ) (n : Nat) :
    (script src left inner n).result = (src.answer IO_BUF_SIZE inner n).map fun piece => piece.1.length := by
  unfold script
  cases src.answer IO_BUF_SIZE inner n with
  | ok piece => rfl
  | error e => rfl

theorem delivered_script (inner : σ) (n : Nat) :
    delivered (script src left inner) n = src.taken IO_BUF_SIZE inner n := by
  induction n with
  | zero => rfl
  | succ n ih => rw [delivered, Source.taken, ih, script_bytes]

/-- The digest of what is still to come, or the error it ends with. -/
def digestOf (rest : Rest U8 ε) : Except ε Sha3Digest := rest.ending.map fun _ => ⟨hashOf rest.elements⟩

variable {src} {rest : σ → Rest U8 ε}

/-- The reads of a source come to an end, and by then they have delivered what it
spells. -/
theorem script_ends (h : src.Spells rest) (inner : σ) :
    ∃ m, FirstEmpty (script src left inner) 0 m ∧ delivered (script src left inner) m = (rest inner).elements ∧
      (script src left inner m).result = (rest inner).ending.map fun _ => 0 := by
  obtain ⟨m, hbring, htaken, hend⟩ := h.ends (show 0 < IO_BUF_SIZE by decide) inner
  have hempty : (script src left inner m).bytes = [] := by
    rw [script_bytes, hend]
    cases (rest inner).ending with
    | ok u => rfl
    | error e => rfl
  refine ⟨m, ⟨⟨Nat.zero_le m, ?_⟩, hempty⟩, ?_, ?_⟩
  · intro k _ hk
    rw [script_bytes]
    exact hbring k hk
  · rw [delivered_script, htaken]
  · rw [script_result, hend]
    cases (rest inner).ending with
    | ok u => rfl
    | error e => rfl

theorem hash_reader_spells (h : src.Spells rest) (inner : σ) (hfit : (rest inner).elements.length < 2 ^ 64) :
    hash_reader p (script src left inner) = .ok (digestOf (rest inner)) := by
  obtain ⟨m, hm, hdelivered, hresult⟩ := script_ends left h inner
  rw [← hdelivered] at hfit
  rw [hash_reader_eq p _ hm hfit, hresult, hdelivered, digestOf]
  cases (rest inner).ending with
  | ok u => rfl
  | error e => rfl

theorem consume_all_spells (h : src.Spells rest) (inner : σ) (hfit : (rest inner).elements.length < 2 ^ 64) :
    Returns ((Sha3Reader.new p).consume_all p (script src left inner)) (fun out =>
      out.2 = (rest inner).ending.map (fun _ => (rest inner).elements.length) ∧
      Returns (out.1.finalize p) (fun fin => fin.2 = ⟨hashOf (rest inner).elements⟩)) := by
  obtain ⟨m, hm, hdelivered, hresult⟩ := script_ends left h inner
  have hsame : delivered (script src left inner) (m + 1) = (rest inner).elements := by
    rw [delivered, hm.2, List.append_nil, hdelivered]
  have hcall := reader_step_returns p _ (reads_new p (script src left inner)) .consume_all hm (by rwa [hsame])
  refine hcall.mono ?_
  intro out hout
  obtain ⟨hreads, hinner, htotal⟩ := hout
  rw [callResult, hresult, hsame] at htotal
  refine ⟨?_, ?_⟩
  · rw [htotal]
    cases (rest inner).ending with
    | ok u => rfl
    | error e => rfl
  · have hfin := reader_finalize_spec p _ hreads
    rwa [hinner, hsame] at hfin

/-! ## Files -/

/-- A buffer no larger than the reader's own is never used: every read asks for a
whole buffer, and goes to the file. -/
theorem script_buffered (file : Source σ U8 ε) {capacity : Nat} (h : capacity ≤ IO_BUF_SIZE) (handle : σ) :
    script (file.buffered capacity) left ⟨handle, []⟩ = script file left handle := by
  funext n
  unfold script
  rw [Source.answer_buffered h]

/-- The buffer in front of a file never shows. With std's capacity, or any up to 8 KiB,
`hash_file` is `hash_reader` on the file itself, whatever the file answers, errors
included. With a larger one it still returns the digest of all that the file
spells, or the error that the file ends with; a file that cannot be opened is
reported as such. -/
theorem hash_file_law (fopen : Path → Except ε σ) (file : Source σ U8 ε) :
    (∀ (capacity : Nat) (path : Path) (handle : σ), capacity ≤ IO_BUF_SIZE → fopen path = .ok handle →
      hash_file p fopen file capacity left path = hash_reader p (script file left handle)) ∧
    ∀ rest : σ → Rest U8 ε, file.Spells rest → ∀ (capacity : Nat) (path : Path), 0 < capacity →
      (∀ handle, fopen path = .ok handle → (rest handle).elements.length < 2 ^ 64) →
      hash_file p fopen file capacity left path = .ok (fopen path >>= fun handle => digestOf (rest handle)) := by
  constructor
  · intro capacity path handle hcapacity hopen
    unfold hash_file
    rw [hopen]
    dsimp only
    rw [script_buffered left file hcapacity]
  · intro rest hspells capacity path hcapacity hfit
    unfold hash_file
    cases hopen : fopen path with
    | error e => rfl
    | ok handle =>
      have hbuffered := hspells.buffered hcapacity
      dsimp only
      rw [hash_reader_spells p left hbuffered ⟨handle, []⟩ (hfit handle hopen)]
      rfl

/-- A file behind a buffer that is larger than the reader's, and a name that is not
there. -/
theorem hash_file_firmware :
    let p : Platform := ⟨false, false, false, false, false, false, false⟩
    let fopen (name : String) : Except Unit (List U8) := if name = "firmware.bin" then .ok [1, 2, 3] else .error ()
    let hash_file := hash_file p fopen Source.cursor 16384 fun _ => Vector.replicate IO_BUF_SIZE 0
    hash_file "firmware.bin" = .ok (.ok ⟨hashOf [1, 2, 3]⟩) ∧ hash_file "firmware" = .ok (.error ()) := by
  intro p fopen hash_file
  have hlaw := fun name => (hash_file_law p (fun _ => Vector.replicate IO_BUF_SIZE 0) fopen Source.cursor).2 _
    Source.cursor_spells 16384 name (by decide)
  constructor
  · refine hlaw "firmware.bin" ?_
    intro handle hhandle
    obtain rfl := Except.ok.inj hhandle
    decide
  · refine hlaw "firmware" ?_
    intro handle hhandle
    cases hhandle

end Laws

end Sha3Kernel
