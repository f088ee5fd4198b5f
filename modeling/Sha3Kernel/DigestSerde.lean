import Sha3Kernel.HashLib.Serde
import Sha3Kernel.Kernel
/-!
# Storing a digest (`digest_serde` in `hex.rs`)

A digest is written as 64 bytes and read back from bytes or from a sequence of
`u8`. Bytes must be 64; a sequence is asked for 64 elements and never for
another, so the format alone decides about what comes after them.
-/

namespace Sha3Kernel

open HashLib HashLib.Arrays HashLib.Bits HashLib.Checked HashLib.Serde

variable {ε : Type}

/-! ## The code -/

/-- `serializer.serialize_bytes(&self.0)` -/
def Sha3Digest.serialize (self : Sha3Digest) : List U8 := self.bytes.toList

namespace DigestVisitor

def expecting : String := "64 bytes (SHA3-512 digest)"

def visit_bytes (v : List U8) : Outcome ε Sha3Digest := do
  if v.length ≠ 64 then
    throw (.invalid_length v.length "64")
  let buf ← copy_from_slice (Vector.replicate 64 0) 0 64 v
  pure ⟨buf⟩

/-- `seq.next_element::<u8>()` -/
def next_element : List (Except (Error ε) U8) → Except (Error ε) (Option U8 × List (Except (Error ε) U8))
  | [] => .ok (none, [])
  | .ok byte :: seq => .ok (some byte, seq)
  | .error e :: _ => .error e

/-- The body of the loop over the slots. -/
def fill_slot (i : Nat) (buf : Sha3_512Hash) (seq : List (Except (Error ε) U8)) :
    Outcome ε (Sha3_512Hash × List (Except (Error ε) U8)) := do
  let (element, seq) ← next_element seq
  let byte ← ok_or element (.invalid_length i "64")
  let buf ← store buf i byte
  pure (buf, seq)

/-- Returns the elements that were not asked for, too. -/
def visit_seq (seq : List (Except (Error ε) U8)) : Outcome ε (Sha3Digest × List (Except (Error ε) U8)) := do
  let (buf, seq) ← (List.range' 0 64).foldlM (fun (buf, seq) i => fill_slot i buf seq) (Vector.replicate 64 0, seq)
  pure (⟨buf⟩, seq)

end DigestVisitor

/-- `deserialize_bytes` with the visitor: the format picks the shape, and checks what
the visitor has left of a sequence. A method that the visitor does not define returns
an invalid-type error. -/
def Sha3Digest.deserialize (format : EndCheck ε) : ByteShape ε → Outcome ε Sha3Digest
  | .bytes v => DigestVisitor.visit_bytes v
  | .seq elements => do
    let (digest, rest) ← DigestVisitor.visit_seq elements
    format.check rest
    pure digest
  | .other unexpected => throw (.invalid_type unexpected DigestVisitor.expecting)

/-! ## What is accepted -/

/-- The visitor answers with a digest of these bytes, or with this error. -/
def AnswersBytes (m : Outcome ε Sha3Digest) (answer : Except (Error ε) (List U8)) : Prop :=
  Settles m (fun d => answer = .ok d.bytes.toList) (fun e => answer = .error e)

/-- A visit has one answer. -/
theorem AnswersBytes.unique {m : Outcome ε Sha3Digest} {answer answer' : Except (Error ε) (List U8)}
    (h : AnswersBytes m answer) (h' : AnswersBytes m answer') : answer = answer' := by
  obtain ⟨r, hr, hans⟩ := h
  obtain ⟨r', hr', hans'⟩ := h'
  obtain rfl := Except.ok.inj (hr.symm.trans hr')
  cases r with
  | ok d => exact hans.trans hans'.symm
  | error e => exact hans.trans hans'.symm

/-- Visits with one answer are the same. -/
theorem AnswersBytes.ext {m m' : Outcome ε Sha3Digest} {answer : Except (Error ε) (List U8)}
    (h : AnswersBytes m answer) (h' : AnswersBytes m' answer) : m = m' := by
  obtain ⟨r, hr, hans⟩ := h
  obtain ⟨r', hr', hans'⟩ := h'
  have hrr : r = r' := by
    cases r with
    | ok d =>
      cases r' with
      | ok d' =>
        obtain ⟨bytes⟩ := d
        obtain ⟨bytes'⟩ := d'
        have hbytes : bytes = bytes' := Vector.toList_inj.1 (Except.ok.inj (hans.symm.trans hans'))
        rw [hbytes]
      | error e' => cases hans.symm.trans hans'
    | error e =>
      cases r' with
      | ok d' => cases hans.symm.trans hans'
      | error e' => rw [Except.error.inj (hans.symm.trans hans')]
  apply ExceptT.ext
  rw [hr, hr', hrr]

end Sha3Kernel
