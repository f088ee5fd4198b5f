import Sha3Kernel.HashLib.Ascii
import Sha3Kernel.Kernel
/-!
# Digests as text (`hex.rs`)

The encoder, the decoder and the formatting traits of a digest. A string is
decoded byte by byte: its length is counted in bytes and its bytes are indexed,
so a character of several bytes is looked at like any other bytes.
-/

namespace Sha3Kernel

open HashLib HashLib.Arrays HashLib.Ascii HashLib.Bits HashLib.Checked

/-! ## The code -/

/-- An ASCII byte literal, `b'0'`. -/
def ascii (ch : Char) : U8 := BitVec.ofNat 8 ch.toNat

def HEX_LOWER : Vector U8 16 :=
  #v['0', '1', '2', '3', '4', '5', '6', '7', '8', '9', 'a', 'b', 'c', 'd', 'e', 'f'].map ascii

def HEX_UPPER : Vector U8 16 :=
  #v['0', '1', '2', '3', '4', '5', '6', '7', '8', '9', 'A', 'B', 'C', 'D', 'E', 'F'].map ascii

/-- The body of the loop of `encode_hex`: the two characters of a byte, looked up
in the table. -/
def push_hex (table : Vector U8 16) (out : String) (b : U8) : Result String := do
  let hi ← index table.toList (b >>> 4).toNat
  let out := out.push (as_char hi)
  let lo ← index table.toList (b &&& 0x0f).toNat
  pure (out.push (as_char lo))

def encode_hex (bytes : List U8) (table : Vector U8 16) : Result String := bytes.foldlM (push_hex table) ""

def nibble_from_ascii (ch : U8) : Result (Option U8) :=
  if ascii '0' ≤ ch ∧ ch ≤ ascii '9' then do
    let n ← uint_sub ch (ascii '0')
    pure (some n)
  else if ascii 'a' ≤ ch ∧ ch ≤ ascii 'f' then do
    let n ← uint_sub ch (ascii 'a')
    let n ← uint_add n 10
    pure (some n)
  else if ascii 'A' ≤ ch ∧ ch ≤ ascii 'F' then do
    let n ← uint_sub ch (ascii 'A')
    let n ← uint_add n 10
    pure (some n)
  else
    pure none

namespace Sha3Digest

def to_hex_lower (self : Sha3Digest) : Result String := encode_hex self.bytes.toList HEX_LOWER

def to_hex_upper (self : Sha3Digest) : Result String := encode_hex self.bytes.toList HEX_UPPER

/-- One pass of the loop of `from_hex`: `none` once a `?` has returned, after
which no pass does anything. -/
def from_hex_pass (hex : String) (i : Nat) : Option Sha3_512Hash → Result (Option Sha3_512Hash)
  | none => pure none
  | some bytes => do
    let at_hi ← usize_mul i 2
    let ch ← index (as_bytes hex) at_hi
    let some hi ← nibble_from_ascii ch | pure none
    let at_lo ← usize_add at_hi 1
    let ch ← index (as_bytes hex) at_lo
    let some lo ← nibble_from_ascii ch | pure none
    let bytes ← store bytes i ((hi <<< 4) ||| lo)
    pure (some bytes)

def from_hex (hex : String) : Result (Option Sha3Digest) :=
  if hex.utf8ByteSize ≠ 128 then
    pure none
  else do
    let bytes ← forRange 0 64 (from_hex_pass hex) (some (Vector.replicate 64 0))
    pure (bytes.map Sha3Digest.mk)

end Sha3Digest

/-! ### Formatting -/

/-- What the text of `write!` goes to. It may refuse it, and the error carries
nothing. -/
structure Formatter (σ : Type) where
  write_str : String → σ → Option σ

/-- `format!` writes to a string, which takes everything. -/
def Formatter.string : Formatter String := ⟨fun text out => some (out ++ text)⟩

/-- `{:02x}` of a byte: its hexadecimal numeral, with a zero in front of a single
digit. -/
def format_02x (b : U8) : String := String.ofList ((Nat.toDigits 16 b.toNat).leftpad 2 '0')

/-- `{:02X}` of a byte. -/
def format_02X (b : U8) : String := (format_02x b).toUpper

namespace Sha3Digest

section Formatting
variable {σ : Type} (self : Sha3Digest) (f : Formatter σ)

/-- The loop of the three traits, over the format of one byte. -/
def fmt_bytes (format : U8 → String) (out : σ) : Option σ :=
  self.bytes.toList.foldlM (fun out b => f.write_str (format b) out) out

def Display.fmt : σ → Option σ := self.fmt_bytes f format_02x

def LowerHex.fmt : σ → Option σ := self.fmt_bytes f format_02x

def UpperHex.fmt : σ → Option σ := self.fmt_bytes f format_02X

def Debug.fmt (out : σ) : Option σ := do
  let out ← f.write_str "Sha3Digest(" out
  let out ← Display.fmt self f out
  f.write_str ")" out

end Formatting

end Sha3Digest

/-! ## Digits -/

/-- The digit with the value `n`. -/
def digit (table : Vector U8 16) (n : BitVec 4) : U8 := table.get n.toFin

/-- The value of a digit of either table. -/
def hexValue (ch : U8) : Option (BitVec 4) :=
  (List.ofFn BitVec.ofFin).find? fun n => ch == digit HEX_LOWER n || ch == digit HEX_UPPER n

/-- What the decoder takes for a digit are the characters `0-9`, `a-f` and `A-F`. -/
def is_ascii_hexdigit (ch : U8) : Bool := "0123456789abcdefABCDEF".toList.contains (as_char ch)

theorem nibble_from_ascii_eq (ch : U8) : nibble_from_ascii ch = .ok ((hexValue ch).map (BitVec.setWidth 8)) := by
  revert ch
  decide +kernel

theorem isSome_hexValue (ch : U8) : (hexValue ch).isSome = is_ascii_hexdigit ch := by
  revert ch
  decide +kernel

theorem ascii_of_hexdigit {ch : U8} (h : is_ascii_hexdigit ch) : ch < 128 := by
  revert ch
  decide +kernel

/-- The digits of `table` are read back, and `conv` turns every digit with a value
into that of the table. -/
structure Table (table : Vector U8 16) (conv : Char → Char) : Prop where
  ascii : ∀ n, digit table n < 128
  reads : ∀ n, hexValue (digit table n) = some n
  folds : ∀ ch, ∀ n ∈ hexValue ch, conv (as_char ch) = as_char (digit table n)

theorem table_lower : Table HEX_LOWER Char.toLower where
  ascii := by decide +kernel
  reads := by decide +kernel
  folds := by decide +kernel

theorem table_upper : Table HEX_UPPER Char.toUpper where
  ascii := by decide +kernel
  reads := by decide +kernel
  folds := by decide +kernel

/-! ## Encoding -/

/-- The two characters of a byte. -/
def hexPair (table : Vector U8 16) (b : U8) : List Char := (nibbles b).map fun n => as_char (digit table n)

theorem index_digit (table : Vector U8 16) {i : U8} {n : BitVec 4} (h : i.toNat = n.toNat) :
    index table.toList i.toNat = .ok (digit table n) := by
  have hn : n.toNat < table.toList.length := by
    rw [Vector.length_toList]
    exact n.isLt
  rw [h, index_eq hn, Vector.getElem_toList]
  rfl

theorem hi_digit (b : U8) : (b >>> 4).toNat = (b.extractLsb' 4 4).toNat := by
  revert b
  decide +kernel

theorem lo_digit (b : U8) : (b &&& 0x0f).toNat = (b.extractLsb' 0 4).toNat := by
  revert b
  decide +kernel

theorem push_hex_eq (table : Vector U8 16) (out : String) (b : U8) :
    push_hex table out b = .ok (out ++ String.ofList (hexPair table b)) := by
  unfold push_hex
  rw [index_digit table (hi_digit b), ok_bind, index_digit table (lo_digit b), ok_bind, pure_eq_ok]
  congr 1
  rw [← String.toList_inj]
  simp [hexPair, nibbles]

/-- The text of a digest. -/
def hexString (table : Vector U8 16) (d : Sha3Digest) : String :=
  String.ofList (d.bytes.toList.flatMap (hexPair table))

theorem encode_hex_eq (table : Vector U8 16) (d : Sha3Digest) :
    encode_hex d.bytes.toList table = .ok (hexString table d) := by
  unfold encode_hex hexString
  rw [foldlM_push (push_hex_eq table), String.empty_append]
  rfl

theorem toList_hexString (table : Vector U8 16) (d : Sha3Digest) :
    (hexString table d).toList = (d.bytes.toList.flatMap nibbles).map fun n => as_char (digit table n) := by
  rw [hexString, String.toList_ofList, List.map_flatMap]
  rfl

/-! ## Decoding -/

theorem length_nibbles (d : Sha3Digest) : (d.bytes.toList.flatMap nibbles).length = 128 := by
  have htwo (b : U8) : (nibbles b).length = 2 := rfl
  rw [length_flatMap_of nibbles htwo, Vector.length_toList]

/-- Before pass `i`: the first `2i` characters are the digits of the first `i`
bytes, or one that is no digit was met. -/
def Decoded (hex : String) (i : Nat) : Option Sha3_512Hash → Prop
  | some bytes => ((as_bytes hex).take (i * 2)).map hexValue = ((bytes.toList.take i).flatMap nibbles).map some
  | none => ∃ ch ∈ as_bytes hex, hexValue ch = none

theorem from_hex_pass_spec {hex : String} (hlen : (as_bytes hex).length = 128) {i : Nat} (hi : i < 64)
    (r : Option Sha3_512Hash) (h : Decoded hex i r) :
    Returns (Sha3Digest.from_hex_pass hex i r) (Decoded hex (i + 1)) := by
  cases r with
  | none => exact .ret h
  | some bytes =>
    have hhi : i * 2 < (as_bytes hex).length := by omega
    have hlo : i * 2 + 1 < (as_bytes hex).length := by omega
    unfold Sha3Digest.from_hex_pass
    dsimp only
    rw [usize_mul_eq (by simp only [usizeMax]; omega), ok_bind, index_eq hhi, ok_bind, nibble_from_ascii_eq, ok_bind]
    -- the first `?`, and behind it the second
    cases hv : hexValue (as_bytes hex)[i * 2] with
    | none => exact .ret ⟨_, List.getElem_mem hhi, hv⟩
    | some hi' =>
      dsimp only [Option.map_some]
      rw [usize_add_eq (by simp only [usizeMax]; omega), ok_bind, index_eq hlo, ok_bind, nibble_from_ascii_eq, ok_bind]
      cases hv' : hexValue (as_bytes hex)[i * 2 + 1] with
      | none => exact .ret ⟨_, List.getElem_mem hlo, hv'⟩
      | some lo =>
        dsimp only [Option.map_some]
        rw [store_eq _ hi, ok_bind]
        refine .ret ?_
        have htake : (as_bytes hex).take ((i + 1) * 2) =
            (as_bytes hex).take (i * 2) ++ [(as_bytes hex)[i * 2], (as_bytes hex)[i * 2 + 1]] := by
          rw [Nat.succ_mul, List.take_succ_eq_append_getElem hlo, List.take_succ_eq_append_getElem hhi,
            List.append_assoc, List.singleton_append]
        unfold Decoded
        dsimp only
        rw [htake, List.map_append, h, take_stored _ _ hi, List.flatMap_append, List.flatMap_singleton,
          nibbles_append, List.map_append, List.map_cons, List.map_cons, hv, hv']
        rfl

/-- What `from_hex` returns: the digest whose digits the string spells, or nothing
when the length is wrong or a byte is no digit. -/
def Spells (hex : String) : Option Sha3Digest → Prop
  | some d => (as_bytes hex).map hexValue = (d.bytes.toList.flatMap nibbles).map some
  | none => (as_bytes hex).length ≠ 128 ∨ ∃ ch ∈ as_bytes hex, hexValue ch = none

theorem from_hex_spec (hex : String) : Returns (Sha3Digest.from_hex hex) (Spells hex) := by
  unfold Sha3Digest.from_hex
  rw [← length_as_bytes]
  by_cases hlen : (as_bytes hex).length = 128
  · rw [if_neg (not_not.2 hlen)]
    have hloop : Returns (forRange 0 64 (Sha3Digest.from_hex_pass hex) (some (Vector.replicate 64 0))) (Decoded hex 64) :=
      forRange_spec (Decoded hex) (by decide) rfl fun i r _ hi hr => from_hex_pass_spec hlen hi r hr
    refine hloop.bind fun r hr => ?_
    cases r with
    | none => exact .ret (.inr hr)
    | some bytes =>
      have hbytes : bytes.toList.length ≤ 64 := Nat.le_of_eq bytes.length_toList
      refine .ret ?_
      unfold Decoded at hr
      dsimp only at hr
      rwa [List.take_of_length_le (Nat.le_of_eq hlen), List.take_of_length_le hbytes] at hr
  · rw [if_pos hlen]
    exact .ret (.inl hlen)

/-! ## There and back -/

theorem hexDigits_of_spells {hex : String} {d : Sha3Digest} (h : Spells hex (some d)) :
    (as_bytes hex).length = 128 ∧ ∀ ch ∈ as_bytes hex, is_ascii_hexdigit ch := by
  unfold Spells at h
  dsimp only at h
  constructor
  · have hlen := congrArg List.length h
    rwa [List.length_map, List.length_map, length_nibbles] at hlen
  · intro ch hch
    have hmem : hexValue ch ∈ (d.bytes.toList.flatMap nibbles).map some := h ▸ List.mem_map_of_mem hch
    obtain ⟨n, -, hn⟩ := List.mem_map.1 hmem
    rw [← isSome_hexValue, ← hn]
    rfl

/-- Encoding what a string spells gives its characters back, in the case of the
table. -/
theorem hexString_of_spells {table : Vector U8 16} {conv : Char → Char} (ht : Table table conv) {hex : String}
    {d : Sha3Digest} (h : Spells hex (some d)) : hexString table d = hex.map conv := by
  have hascii : ∀ ch ∈ as_bytes hex, ch < 128 := fun ch hch => ascii_of_hexdigit ((hexDigits_of_spells h).2 ch hch)
  have hmap := map_eq_of_reads ht.folds h
  rw [← String.toList_inj, toList_hexString, String.toList_map, toList_of_as_bytes hascii, List.map_map, ← hmap]
  rfl

theorem as_bytes_hexString {table : Vector U8 16} {conv : Char → Char} (ht : Table table conv) (d : Sha3Digest) :
    as_bytes (hexString table d) = (d.bytes.toList.flatMap nibbles).map (digit table) := by
  have hascii : ∀ ch ∈ (d.bytes.toList.flatMap nibbles).map (digit table), ch < 128 := by
    intro ch hch
    obtain ⟨n, -, rfl⟩ := List.mem_map.1 hch
    exact ht.ascii n
  rw [← as_bytes_ofList hascii, List.map_map, ← String.ofList_toList (s := hexString table d), toList_hexString]
  rfl

theorem from_hex_hexString {table : Vector U8 16} {conv : Char → Char} (ht : Table table conv) (d : Sha3Digest) :
    Sha3Digest.from_hex (hexString table d) = .ok (some d) := by
  have hbytes := as_bytes_hexString ht d
  apply Returns.eq_ok
  refine (from_hex_spec _).mono fun r hr => ?_
  cases r with
  | none =>
    exfalso
    rcases hr with hlen | ⟨ch, hch, hnone⟩
    · rw [hbytes, List.length_map, length_nibbles] at hlen
      exact hlen rfl
    · rw [hbytes] at hch
      obtain ⟨n, -, rfl⟩ := List.mem_map.1 hch
      exact absurd ((ht.reads n).symm.trans hnone) (Option.some_ne_none n)
  | some d' =>
    unfold Spells at hr
    dsimp only at hr
    have hreads : ((d.bytes.toList.flatMap nibbles).map (digit table)).map hexValue =
        (d.bytes.toList.flatMap nibbles).map some := by
      rw [List.map_map]
      exact List.map_congr_left fun n _ => ht.reads n
    -- the decoded digest has the digits of `d`
    rw [hbytes, hreads] at hr
    have hdigits := List.map_injective_iff.2 (Option.some_injective _) hr
    obtain ⟨bytes⟩ := d'
    obtain rfl : d.bytes = bytes := Vector.toList_inj.1 (nibbles_injective hdigits)
    rfl

/-! ## Formatting -/

theorem format_02x_eq (b : U8) : format_02x b = String.ofList (hexPair HEX_LOWER b) := by
  have h : (Nat.toDigits 16 b.toNat).leftpad 2 '0' = hexPair HEX_LOWER b := by
    revert b
    decide +kernel
  rw [format_02x, h]

theorem format_02X_eq (b : U8) : format_02X b = String.ofList (hexPair HEX_UPPER b) := by
  have h : (hexPair HEX_LOWER b).map Char.toUpper = hexPair HEX_UPPER b := by
    revert b
    decide +kernel
  rw [← String.toList_inj, format_02X, String.toUpper, String.toList_map, format_02x_eq, String.toList_ofList, h,
    String.toList_ofList]

/-- Formatting into a string appends the text of the digest. -/
theorem fmt_bytes_string {table : Vector U8 16} {format : U8 → String}
    (h : ∀ b, format b = String.ofList (hexPair table b)) (d : Sha3Digest) (out : String) :
    d.fmt_bytes .string format out = some (out ++ hexString table d) := by
  unfold Sha3Digest.fmt_bytes
  refine foldlM_push (fun out b => ?_) _ out
  rw [h]
  rfl

theorem debug_fmt_string (d : Sha3Digest) (out : String) :
    Sha3Digest.Debug.fmt d .string out = some (out ++ "Sha3Digest(" ++ hexString HEX_LOWER d ++ ")") := by
  have hdisplay := fmt_bytes_string format_02x_eq d (out ++ "Sha3Digest(")
  unfold Sha3Digest.Debug.fmt Sha3Digest.Display.fmt Formatter.string at *
  dsimp only [Option.bind_eq_bind, Option.bind_some]
  rw [hdisplay]
  rfl

/-- A string that does not decode is too short or long, or has a byte that is no
digit. -/
theorem not_hexDigits_of_spells {hex : String} (h : Spells hex none) :
    ¬((as_bytes hex).length = 128 ∧ ∀ ch ∈ as_bytes hex, is_ascii_hexdigit ch) := by
  rintro ⟨hlen, hdigits⟩
  rcases h with hne | ⟨ch, hch, hnone⟩
  · exact hne hlen
  · have hdigit := hdigits ch hch
    rw [← isSome_hexValue, hnone] at hdigit
    exact absurd hdigit (by decide)

/-- What a string decodes to, and the encoders on what it decodes to. -/
theorem from_hex_accepts (hex : String) :
    Returns (Sha3Digest.from_hex hex) (fun r =>
      (r.isSome ↔ (as_bytes hex).length = 128 ∧ ∀ ch ∈ as_bytes hex, is_ascii_hexdigit ch) ∧
      ∀ d ∈ r, d.to_hex_lower = .ok hex.toLower ∧ d.to_hex_upper = .ok hex.toUpper) := by
  refine (from_hex_spec hex).mono fun r hr => ?_
  cases r with
  | none => exact ⟨iff_of_false (by decide) (not_hexDigits_of_spells hr), nofun⟩
  | some d =>
    refine ⟨iff_of_true rfl (hexDigits_of_spells hr), ?_⟩
    rintro _ ⟨⟩
    constructor
    · exact (encode_hex_eq HEX_LOWER d).trans (congrArg Except.ok (hexString_of_spells table_lower hr))
    · exact (encode_hex_eq HEX_UPPER d).trans (congrArg Except.ok (hexString_of_spells table_upper hr))

/-- A digest and its text. A string is decoded exactly when it is 128 bytes of
hexadecimal digits, and no string is a fault; encoding gives it back in the case
of the table, every encoding is decoded to its digest, and the formatting traits
write what the encoders return. -/
theorem hex_round_trip :
    (∀ hex : String, Returns (Sha3Digest.from_hex hex) (fun r =>
      (r.isSome ↔ (as_bytes hex).length = 128 ∧ ∀ ch ∈ as_bytes hex, is_ascii_hexdigit ch) ∧
      ∀ d ∈ r, d.to_hex_lower = .ok hex.toLower ∧ d.to_hex_upper = .ok hex.toUpper)) ∧
    ∀ d : Sha3Digest,
      Returns d.to_hex_lower (fun hex => Sha3Digest.from_hex hex = .ok (some d) ∧
        ∀ out, Sha3Digest.Display.fmt d .string out = some (out ++ hex) ∧
          Sha3Digest.LowerHex.fmt d .string out = some (out ++ hex)) ∧
      Returns d.to_hex_upper (fun hex => Sha3Digest.from_hex hex = .ok (some d) ∧
        ∀ out, Sha3Digest.UpperHex.fmt d .string out = some (out ++ hex)) := by
  refine ⟨from_hex_accepts, fun d => ⟨?_, ?_⟩⟩
  · refine .of_eq (encode_hex_eq HEX_LOWER d) ⟨from_hex_hexString table_lower d, fun out => ?_⟩
    exact ⟨fmt_bytes_string format_02x_eq d out, fmt_bytes_string format_02x_eq d out⟩
  · refine .of_eq (encode_hex_eq HEX_UPPER d) ⟨from_hex_hexString table_upper d, fun out => ?_⟩
    exact fmt_bytes_string format_02X_eq d out

end Sha3Kernel
