import Mathlib
/-!
# Bytes, words and bit strings

A byte string stands for the bit string that lists each byte least significant
bit first, and a 64-bit word for the eight bytes of its little-endian form. The
same bit of the string is then bit `k % 8` of byte `k / 8` and bit `k % 64` of
word `k / 64`.
-/

namespace HashLib.Bits

abbrev U8 := BitVec 8
abbrev U64 := BitVec 64

-- positions in a word: its bytes and its bits
instance neZero_bytes : NeZero 8 := ⟨by decide⟩
instance neZero_bits : NeZero 64 := ⟨by decide⟩

/-! ## Concatenating pieces of one length -/

section FlatMap
variable {α β : Type} {k : Nat}

theorem length_flatMap_of (f : α → List β) (hf : ∀ x, (f x).length = k) (xs : List α) :
    (xs.flatMap f).length = xs.length * k := by
  induction xs with
  | nil => simp
  | cons x xs ih => rw [List.flatMap_cons, List.length_append, hf, ih, List.length_cons, Nat.succ_mul, Nat.add_comm]

/-- Element `i` of the concatenation is element `i % k` of piece `i / k`. -/
theorem getElem?_flatMap_of (f : α → List β) (hk : 0 < k) (hf : ∀ x, (f x).length = k) (xs : List α) (i : Nat) :
    (xs.flatMap f)[i]? = xs[i / k]?.bind (fun x => (f x)[i % k]?) := by
  induction xs generalizing i with
  | nil => simp
  | cons x xs ih =>
    rw [List.flatMap_cons]
    rcases Nat.lt_or_ge i k with h | h
    · rw [List.getElem?_append_left (by rw [hf]; exact h), Nat.div_eq_of_lt h, Nat.mod_eq_of_lt h]
      rfl
    · rw [List.getElem?_append_right (by rw [hf]; exact h), hf, ih, Nat.div_eq_sub_div hk h,
        Nat.mod_eq_sub_mod h, List.getElem?_cons_succ]

theorem take_flatMap_of (f : α → List β) (hf : ∀ x, (f x).length = k) (xs : List α) (n : Nat) :
    (xs.flatMap f).take (n * k) = (xs.take n).flatMap f := by
  induction n generalizing xs with
  | zero => simp
  | succ n ih =>
    cases xs with
    | nil => simp
    | cons x xs =>
      rw [List.flatMap_cons, List.take_succ_cons, List.flatMap_cons, Nat.succ_mul, Nat.add_comm, ← hf x,
        List.take_length_add_append, hf, ih]

theorem drop_flatMap_of (f : α → List β) (hf : ∀ x, (f x).length = k) (xs : List α) (n : Nat) :
    (xs.flatMap f).drop (n * k) = (xs.drop n).flatMap f := by
  induction n generalizing xs with
  | zero => simp
  | succ n ih =>
    cases xs with
    | nil => simp
    | cons x xs =>
      rw [List.flatMap_cons, List.drop_succ_cons, Nat.succ_mul, Nat.add_comm, ← hf x, List.drop_length_add_append,
        hf, ih]

end FlatMap

/-! ## Bit strings -/

/-- The bits of a machine word, least significant first. -/
def wordBits {w : Nat} (x : BitVec w) : List Bool := (List.range w).map x.getLsbD

@[simp] theorem length_wordBits {w : Nat} (x : BitVec w) : (wordBits x).length = w := by simp [wordBits]

theorem getElem?_wordBits {w : Nat} (x : BitVec w) (i : Nat) (h : i < w) : (wordBits x)[i]? = some (x.getLsbD i) := by
  simp [wordBits, h]

/-- The bit string of a list of words, first word first. -/
def bits {w : Nat} (xs : List (BitVec w)) : List Bool := xs.flatMap wordBits

section Bits
variable {w : Nat}

@[simp] theorem bits_nil : bits ([] : List (BitVec w)) = [] := rfl

@[simp] theorem bits_cons (x : BitVec w) (xs : List (BitVec w)) : bits (x :: xs) = wordBits x ++ bits xs := rfl

@[simp] theorem bits_append (xs ys : List (BitVec w)) : bits (xs ++ ys) = bits xs ++ bits ys :=
  List.flatMap_append

@[simp] theorem length_bits (xs : List (BitVec w)) : (bits xs).length = xs.length * w :=
  length_flatMap_of _ length_wordBits xs

theorem take_bits (xs : List (BitVec w)) (n : Nat) : (bits xs).take (n * w) = bits (xs.take n) :=
  take_flatMap_of _ length_wordBits xs n

theorem drop_bits (xs : List (BitVec w)) (n : Nat) : (bits xs).drop (n * w) = bits (xs.drop n) :=
  drop_flatMap_of _ length_wordBits xs n

/-- Bit `i` of the string is bit `i % w` of word `i / w`. -/
theorem getElem?_bits (hw : 0 < w) (xs : List (BitVec w)) (i : Nat) :
    (bits xs)[i]? = xs[i / w]?.map (fun x => x.getLsbD (i % w)) := by
  rw [bits, getElem?_flatMap_of _ hw length_wordBits, Option.map_eq_bind]
  congr 1
  funext x
  exact getElem?_wordBits x _ (Nat.mod_lt _ hw)

theorem bits_replicate_zero (n : Nat) : bits (List.replicate n (0 : BitVec w)) = List.replicate (n * w) false := by
  induction n with
  | zero => simp
  | succ n ih =>
    rw [List.replicate_succ, bits_cons, ih, Nat.succ_mul, Nat.add_comm, List.replicate_add]
    congr 1
    exact List.ext_getElem (by simp) (by simp [wordBits])

end Bits

/-- The word with the given bits. -/
def ofBits {w : Nat} (f : Fin w → Bool) : BitVec w := (BitVec.iunfoldr (fun i (_ : Unit) => ((), f i)) ()).2

@[simp] theorem getLsbD_ofBits {w : Nat} (f : Fin w → Bool) (i : Fin w) : (ofBits f).getLsbD i.val = f i :=
  BitVec.iunfoldr_getLsbD (fun _ => ()) i (fun _ => rfl)

/-- Rotating left moves bit `z - r` to bit `z`. -/
theorem getLsbD_rotateLeft (x : U64) (r : Nat) (z : Fin 64) :
    (x.rotateLeft r).getLsbD z.val = x.getLsbD (z - Fin.ofNat 64 r).val := by
  have hr : r % 64 < 64 := Nat.mod_lt _ (by decide)
  have hz := z.isLt
  rw [BitVec.getLsbD_rotateLeft, Fin.val_sub, Fin.val_ofNat]
  by_cases h : z.val < r % 64
  · rw [decide_eq_true h, cond_true]
    congr 1
    omega
  · rw [decide_eq_false h, cond_false, decide_eq_true hz, Bool.true_and]
    congr 1
    omega

theorem rotateLeft_zero (x : U64) : x.rotateLeft 0 = x := by
  refine BitVec.eq_of_getLsbD_eq fun z hz => ?_
  have h := getLsbD_rotateLeft x 0 ⟨z, hz⟩
  have hz0 : (⟨z, hz⟩ : Fin 64) - Fin.ofNat 64 0 = ⟨z, hz⟩ := Fin.ext (by simp)
  rwa [hz0] at h

/-! ## Little-endian words -/

/-- `u64::from_le_bytes` -/
def from_le_bytes (b : Vector U8 8) : U64 :=
  b.get 7 ++ b.get 6 ++ b.get 5 ++ b.get 4 ++ b.get 3 ++ b.get 2 ++ b.get 1 ++ b.get 0

/-- `u64::to_le_bytes` -/
def to_le_bytes (x : U64) : Vector U8 8 := Vector.ofFn fun i => x.extractLsb' (8 * i.val) 8

theorem getLsbD_from_le_bytes (b : Vector U8 8) (i : Nat) (h : i < 64) :
    (from_le_bytes b).getLsbD i = b[i / 8].getLsbD (i % 8) := by
  simp only [from_le_bytes, BitVec.getLsbD_append]
  interval_cases i <;> simp [Vector.get_eq_getElem]

theorem getLsbD_to_le_bytes (x : U64) (i j : Nat) (hi : i < 8) (hj : j < 8) :
    (to_le_bytes x)[i].getLsbD j = x.getLsbD (8 * i + j) := by
  simp [to_le_bytes, hj]

/-- Word `i` of a byte string. -/
def leWord (bs : List U8) (i : Nat) : U64 := from_le_bytes (Vector.ofFn fun k => bs.getD (8 * i + k.val) 0)

theorem getLsbD_leWord (bs : List U8) (i z : Nat) (h : z < 64) :
    (leWord bs i).getLsbD z = (bs.getD (8 * i + z / 8) 0).getLsbD (z % 8) := by
  rw [leWord, getLsbD_from_le_bytes _ _ h, Vector.getElem_ofFn]

/-- Words below `n / 8` do not see the bytes from `n` on. -/
theorem leWord_take (bs : List U8) (n i : Nat) (h : 8 * i + 8 ≤ n) : leWord (bs.take n) i = leWord bs i := by
  unfold leWord
  congr 1
  refine Vector.ext fun k hk => ?_
  simp only [Vector.getElem_ofFn, List.getD_eq_getElem?_getD]
  rw [List.getElem?_take_of_lt (by omega)]

/-- The bytes of a word spell the word's own bits. -/
theorem bits_to_le_bytes (x : U64) : bits (to_le_bytes x).toList = wordBits x := by
  refine List.ext_getElem? fun i => ?_
  rcases Nat.lt_or_ge i 64 with h | h
  · rw [getElem?_bits (by decide), getElem?_wordBits _ _ h, List.getElem?_eq_getElem (by simp; omega)]
    simp only [Option.map_some, Vector.getElem_toList, Option.some.injEq]
    rw [getLsbD_to_le_bytes x _ _ (by omega) (by omega)]
    congr 1
    omega
  · rw [List.getElem?_eq_none (by simp; omega), List.getElem?_eq_none (by simp; omega)]

/-! ## Xorshift -/

/-- A word that is its own shift is zero, from the lowest bit up. -/
theorem eq_zero_of_xor_shiftLeft {w k : Nat} (hk : 0 < k) {x : BitVec w} (h : x ^^^ x <<< k = 0) : x = 0 := by
  have hbits : ∀ i, x.getLsbD i = false := by
    intro i
    induction i using Nat.strongRecOn with
    | ind i ih =>
      have hi := congrArg (·.getLsbD i) h
      by_cases hik : i < k
      · simpa [hik] using hi
      · have hlow := ih (i - k) (by omega)
        simpa [hlow] using hi
  exact BitVec.eq_of_getLsbD_eq fun i _ => by simp [hbits i]

/-- The same for a shift down, from the highest bit on. -/
theorem eq_zero_of_xor_ushiftRight {w k : Nat} (hk : 0 < k) {x : BitVec w} (h : x ^^^ x >>> k = 0) : x = 0 := by
  have hbits : ∀ j i, w - i = j → x.getLsbD i = false := by
    intro j
    induction j using Nat.strongRecOn with
    | ind j ih =>
      intro i hij
      by_cases hiw : w ≤ i
      · exact BitVec.getLsbD_of_ge x i hiw
      · have hhigh : x.getLsbD (k + i) = false := ih (w - (k + i)) (by omega) (k + i) rfl
        have hi := congrArg (·.getLsbD i) h
        simpa [hhigh] using hi
  exact BitVec.eq_of_getLsbD_eq fun i _ => by simp [hbits _ i rfl]

end HashLib.Bits
