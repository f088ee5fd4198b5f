import Sha3Kernel.HashLib.Bits
/-!
# ASCII text as bytes

A string is the UTF-8 encoding of its characters. Over ASCII the two are the
same list: an ASCII character is encoded as its own code, and a string whose
bytes are all ASCII has no other characters. The two hexadecimal digits of a
byte determine it.
-/

namespace HashLib.Ascii

open Bits

/-- `s.as_bytes()` -/
def as_bytes (s : String) : List U8 := s.toByteArray.data.toList.map UInt8.toBitVec

/-- `b as char` -/
def as_char (b : U8) : Char := Char.ofUInt8 ⟨b⟩

@[simp] theorem length_as_bytes (s : String) : (as_bytes s).length = s.utf8ByteSize := by
  rw [as_bytes, List.length_map, Array.length_toList]
  rfl

/-- The bytes of one character. -/
def charBytes (ch : Char) : List U8 := (String.utf8EncodeChar ch).map UInt8.toBitVec

theorem as_bytes_eq (s : String) : as_bytes s = s.toList.flatMap charBytes := by
  rw [as_bytes, ← String.utf8Encode_toList, List.utf8Encode, List.toList_data_toByteArray, List.map_flatMap]
  rfl

theorem toNat_as_char (b : U8) : (as_char b).toNat = b.toNat := by
  have hb : b.toNat < 2 ^ 32 := by omega
  simpa [as_char, Char.ofUInt8] using hb

/-- An ASCII character is encoded as its code. -/
theorem charBytes_ascii {ch : Char} (h : ch.toNat < 128) : charBytes ch = [BitVec.ofNat 8 ch.toNat] := by
  have hle : ch.val.toNat ≤ 0x7f := Nat.le_of_lt_succ h
  unfold charBytes String.utf8EncodeChar
  rw [if_pos hle]
  rfl

theorem charBytes_as_char {b : U8} (h : b < 128) : charBytes (as_char b) = [b] := by
  have hb : b.toNat < 128 := h
  rw [charBytes_ascii (by rwa [toNat_as_char]), toNat_as_char, BitVec.ofNat_toNat, BitVec.setWidth_eq]

/-- The first byte of any other character is not ASCII. -/
theorem charBytes_not_ascii {ch : Char} (h : 128 ≤ ch.toNat) : ∃ b ∈ charBytes ch, 128 ≤ b := by
  have hlead {n : Nat} (hlo : 128 ≤ n) (hhi : n < 256) : (128 : U8) ≤ (UInt8.ofNat n).toBitVec := by
    rw [UInt8.toBitVec_ofNat', BitVec.le_def, BitVec.toNat_ofNat, Nat.mod_eq_of_lt hhi]
    exact hlo
  have hle : ¬ch.val.toNat ≤ 0x7f := by
    show ¬ch.toNat ≤ 0x7f
    omega
  unfold charBytes String.utf8EncodeChar
  rw [if_neg hle]
  split
  · exact ⟨_, List.mem_cons_self, hlead (by omega) (by omega)⟩
  · split
    · exact ⟨_, List.mem_cons_self, hlead (by omega) (by omega)⟩
    · exact ⟨_, List.mem_cons_self, hlead (by omega) (by omega)⟩

theorem as_char_of_charBytes {ch : Char} (h : ∀ b ∈ charBytes ch, b < 128) : ∃ b, b < 128 ∧ ch = as_char b := by
  have hch : ch.toNat < 128 := by
    by_contra hch
    obtain ⟨b, hb, hle⟩ := charBytes_not_ascii (Nat.le_of_not_lt hch)
    exact absurd (h b hb) (BitVec.not_lt.2 hle)
  have hb : (BitVec.ofNat 8 ch.toNat).toNat = ch.toNat := by
    rw [BitVec.toNat_ofNat]
    omega
  refine ⟨BitVec.ofNat 8 ch.toNat, ?_, ?_⟩
  · rw [BitVec.lt_def, hb]
    exact hch
  · rw [← Char.toNat_inj, toNat_as_char, hb]

theorem as_bytes_ofList {bs : List U8} (h : ∀ b ∈ bs, b < 128) : as_bytes (String.ofList (bs.map as_char)) = bs := by
  rw [as_bytes_eq, String.toList_ofList]
  induction bs with
  | nil => rfl
  | cons b bs ih =>
    rw [List.map_cons, List.flatMap_cons, charBytes_as_char (h b List.mem_cons_self),
      ih fun b' hb' => h b' (List.mem_cons_of_mem _ hb'), List.singleton_append]

/-- A string of ASCII bytes is read off its bytes. -/
theorem toList_of_as_bytes {s : String} (h : ∀ b ∈ as_bytes s, b < 128) : s.toList = (as_bytes s).map as_char := by
  rw [as_bytes_eq] at h ⊢
  generalize s.toList = chs at h ⊢
  induction chs with
  | nil => rfl
  | cons ch chs ih =>
    rw [List.flatMap_cons] at h ⊢
    have hch : ∀ b ∈ charBytes ch, b < 128 := fun b hb => h b (List.mem_append_left _ hb)
    obtain ⟨b, hb, rfl⟩ := as_char_of_charBytes hch
    rw [charBytes_as_char hb, List.singleton_append, List.map_cons, ← ih fun b' hb' => h b' (List.mem_append_right _ hb')]

/-- A loop that writes a piece of text in every pass. -/
theorem foldlM_push {β : Type} {m : Type → Type} [Monad m] [LawfulMonad m] {body : String → β → m String}
    {piece : β → List Char} (h : ∀ out b, body out b = pure (out ++ String.ofList (piece b))) (bs : List β)
    (out : String) : bs.foldlM body out = pure (out ++ String.ofList (bs.flatMap piece)) := by
  induction bs generalizing out with
  | nil => simp
  | cons b bs ih =>
    rw [List.foldlM_cons, h, pure_bind, ih, List.flatMap_cons, String.ofList_append, String.append_assoc]

/-! ## Hexadecimal digits -/

/-- The two digits of a byte, the high one first. -/
def nibbles (b : U8) : List (BitVec 4) := [b.extractLsb' 4 4, b.extractLsb' 0 4]

theorem nibbles_append (hi lo : BitVec 4) : nibbles ((hi.setWidth 8 <<< 4) ||| lo.setWidth 8) = [hi, lo] := by
  revert hi lo
  decide +kernel

/-- A byte is its two digits. -/
theorem nibbles_inj {x y : U8} (h : nibbles x = nibbles y) : x = y := by
  have hjoin (b : U8) : b = (b.extractLsb' 4 4).setWidth 8 <<< 4 ||| (b.extractLsb' 0 4).setWidth 8 := by
    revert b
    decide +kernel
  obtain ⟨hhi, hlo⟩ := List.cons.inj h
  rw [hjoin x, hjoin y, hhi, (List.cons.inj hlo).1]

theorem nibbles_injective {xs ys : List U8} (h : xs.flatMap nibbles = ys.flatMap nibbles) : xs = ys := by
  induction xs generalizing ys with
  | nil =>
    cases ys with
    | nil => rfl
    | cons y ys => exact absurd h.symm (List.cons_ne_nil _ _)
  | cons x xs ih =>
    cases ys with
    | nil => exact absurd h (List.cons_ne_nil _ _)
    | cons y ys =>
      rw [List.flatMap_cons, List.flatMap_cons] at h
      obtain ⟨hxy, hrest⟩ := List.append_inj h rfl
      rw [nibbles_inj hxy, ih hrest]

/-- Items that read as given values agree with them in whatever the reading keeps. -/
theorem map_eq_of_reads {α β γ : Type} {read : α → Option β} {f : α → γ} {g : β → γ}
    (h : ∀ x, ∀ y ∈ read x, f x = g y) {xs : List α} {ys : List β} (hread : xs.map read = ys.map some) :
    xs.map f = ys.map g := by
  induction xs generalizing ys with
  | nil =>
    obtain rfl : ys = [] := by simpa using hread.symm
    rfl
  | cons x xs ih =>
    cases ys with
    | nil => exact absurd hread (List.cons_ne_nil _ _)
    | cons y ys =>
      rw [List.map_cons, List.map_cons] at hread
      obtain ⟨hx, hrest⟩ := List.cons.inj hread
      rw [List.map_cons, List.map_cons, h x y hx, ih hrest]

end HashLib.Ascii
