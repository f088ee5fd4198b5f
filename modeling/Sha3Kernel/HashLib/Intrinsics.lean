import Sha3Kernel.HashLib.Bits
/-!
# Vector intrinsics

The AVX2 and AVX-512F intrinsics on 64-bit elements, as documented: element 0
is the lowest. Each has one simp lemma that gives an element of its result.
-/

namespace HashLib.Intrinsics

open Bits

/-- A register of `n` 64-bit elements. -/
abbrev Reg (n : Nat) := Vector U64 n
abbrev M512i := Reg 8
abbrev M256i := Reg 4

/-! ## Both widths -/

section Common
variable {n : Nat}

def xor_si (a b : Reg n) : Reg n := Vector.zipWith (· ^^^ ·) a b
def set1_epi (x : U64) : Reg n := Vector.replicate n x
def setzero_si : Reg n := Vector.replicate n 0

@[simp] theorem getElem_xor_si (a b : Reg n) (i : Nat) (h : i < n) : (xor_si a b)[i] = a[i] ^^^ b[i] := by
  simp [xor_si]

@[simp] theorem getElem_set1_epi (x : U64) (i : Nat) (h : i < n) : (set1_epi x : Reg n)[i] = x := by
  simp [set1_epi]

end Common

/-! ## AVX-512F -/

def mm512_xor_si512 (a b : M512i) : M512i := xor_si a b
def mm512_set1_epi64 (x : U64) : M512i := set1_epi x
def mm512_setzero_si512 : M512i := setzero_si
def mm512_loadu_si512 (mem : Vector U64 8) : M512i := mem
def mm512_storeu_si512 (a : M512i) : Vector U64 8 := a

/-- The arguments come highest element first. -/
def mm512_set_epi64 (e7 e6 e5 e4 e3 e2 e1 e0 : U64) : M512i := #v[e0, e1, e2, e3, e4, e5, e6, e7]

/-- Element `i` is the element of `a` that the low three bits of `idx[i]` name. -/
def mm512_permutexvar_epi64 (idx a : M512i) : M512i :=
  Vector.ofFn fun i => a[(idx.get i).toNat % 8]

/-- Rotate each element left by the low six bits of its count. -/
def mm512_rolv_epi64 (a count : M512i) : M512i :=
  Vector.zipWith (fun x c => x.rotateLeft (c.toNat % 64)) a count

def mm512_rol_epi64 (imm : Nat) (a : M512i) : M512i := a.map (·.rotateLeft (imm % 64))

/-- Element `i` of `b` where bit `i` of the mask is set, of `a` elsewhere. -/
def mm512_mask_blend_epi64 (k : U8) (a b : M512i) : M512i :=
  Vector.ofFn fun i => if k.getLsbD i.val then b.get i else a.get i

/-- Every result bit is the bit of `imm8` that the bits of `a`, `b` and `e`
there number. -/
def mm512_ternarylogic_epi64 (imm8 : U8) (a b e : M512i) : M512i :=
  Vector.ofFn fun i => ofBits fun j =>
    imm8.getLsbD
      (4 * ((a.get i).getLsbD j).toNat + 2 * ((b.get i).getLsbD j).toNat + ((e.get i).getLsbD j).toNat)

section Avx512
variable (a b e : M512i) (i : Nat) (h : i < 8)

@[simp] theorem getElem_mm512_permutexvar_epi64 :
    (mm512_permutexvar_epi64 a b)[i] = b[a[i].toNat % 8] := by
  simp [mm512_permutexvar_epi64, Vector.get_eq_getElem]

@[simp] theorem getElem_mm512_rolv_epi64 :
    (mm512_rolv_epi64 a b)[i] = a[i].rotateLeft (b[i].toNat % 64) := by
  simp [mm512_rolv_epi64]

@[simp] theorem getElem_mm512_rol_epi64 (imm : Nat) :
    (mm512_rol_epi64 imm a)[i] = a[i].rotateLeft (imm % 64) := by
  simp [mm512_rol_epi64]

@[simp] theorem getElem_mm512_mask_blend_epi64 (k : U8) :
    (mm512_mask_blend_epi64 k a b)[i] = if k.getLsbD i then b[i] else a[i] := by
  simp only [mm512_mask_blend_epi64, Vector.getElem_ofFn, Vector.get_eq_getElem]

/-- The immediate `0xD2` is the truth table of `a ^ (!b & e)`. -/
theorem getElem_mm512_ternarylogic_epi64_D2 :
    (mm512_ternarylogic_epi64 0xD2 a b e)[i] = a[i] ^^^ (~~~b[i] &&& e[i]) := by
  have table : ∀ p q r : Bool,
      (0xD2 : U8).getLsbD (4 * p.toNat + 2 * q.toNat + r.toNat) = (p ^^ (!q && r)) := by decide
  refine BitVec.eq_of_getLsbD_eq fun j hj => ?_
  simp only [mm512_ternarylogic_epi64, Vector.getElem_ofFn, Vector.get_eq_getElem]
  rw [getLsbD_ofBits _ ⟨j, hj⟩, table]
  simp [hj]

end Avx512

/-! ## AVX2 -/

def mm256_xor_si256 (a b : M256i) : M256i := xor_si a b
def mm256_set1_epi64x (x : U64) : M256i := set1_epi x
def mm256_storeu_si256 (a : M256i) : Vector U64 4 := a

/-- The arguments come highest element first. -/
def mm256_set_epi64x (e3 e2 e1 e0 : U64) : M256i := #v[e0, e1, e2, e3]

def mm256_or_si256 (a b : M256i) : M256i := Vector.zipWith (· ||| ·) a b

/-- The complement is of the first operand. -/
def mm256_andnot_si256 (a b : M256i) : M256i := Vector.zipWith (fun x y => ~~~x &&& y) a b

/-- A count of 64 or more gives zero. -/
def mm256_sllv_epi64 (a count : M256i) : M256i :=
  Vector.zipWith (fun x c => if c.toNat < 64 then x <<< c.toNat else 0) a count

def mm256_srlv_epi64 (a count : M256i) : M256i :=
  Vector.zipWith (fun x c => if c.toNat < 64 then x >>> c.toNat else 0) a count

section Avx2
variable (a b : M256i) (i : Nat) (h : i < 4)

@[simp] theorem getElem_mm256_or_si256 : (mm256_or_si256 a b)[i] = a[i] ||| b[i] := by
  simp [mm256_or_si256]

@[simp] theorem getElem_mm256_andnot_si256 : (mm256_andnot_si256 a b)[i] = ~~~a[i] &&& b[i] := by
  simp [mm256_andnot_si256]

@[simp] theorem getElem_mm256_sllv_epi64 :
    (mm256_sllv_epi64 a b)[i] = if b[i].toNat < 64 then a[i] <<< b[i].toNat else 0 := by
  simp [mm256_sllv_epi64]

@[simp] theorem getElem_mm256_srlv_epi64 :
    (mm256_srlv_epi64 a b)[i] = if b[i].toNat < 64 then a[i] >>> b[i].toNat else 0 := by
  simp [mm256_srlv_epi64]

end Avx2

end HashLib.Intrinsics
