import Sha3Kernel.HashLib.Serde
import Sha3Kernel.StateSpec
/-!
# Storing a sponge (`state_serde` in `lib.rs`)

The hand-written `Serialize` and `Deserialize` of the sponge. The visitor reads
the entries of a map in any order, a repeated field overwriting the one before,
and checks that no field is missing and that the two arrays have their lengths.
It does not look at `pos` and `rate`, and it takes no sequence.
-/

namespace Sha3Kernel

open HashLib HashLib.Bits HashLib.Checked HashLib.Serde

variable {ε W : Type}

/-! ## The code -/

def Sha3_512State.serialize (self : Sha3_512State) : Struct where
  name := "Sha3_512State"
  len := 4
  fields := [
    ("state", .u64s self.state.toList),
    ("pos", .usize self.pos),
    ("rate", .usize self.rate),
    ("buffer", .bytes self.buffer.toList)]

inductive Field where
  | state
  | pos
  | rate
  | buffer
  deriving DecidableEq, Repr

/-- What the derived identifier reads a name as, its variants in lowercase. -/
def Field.from_name (name : String) : Except (Error ε) Field :=
  match name with
  | "state" => .ok .state
  | "pos" => .ok .pos
  | "rate" => .ok .rate
  | "buffer" => .ok .buffer
  | name => .error (.unknown_field name ["state", "pos", "rate", "buffer"])

/-- The locals of `visit_map`. -/
structure Slots where
  state_lanes : Option (List U64)
  pos : Option Nat
  rate : Option Nat
  buffer_vec : Option (List U8)

/-- The body of the `while let` of `visit_map`. The key of the entry is the answer of
`map.next_key::<Field>()`, however the format writes keys. -/
def read_entry (r : Reader ε W) (slots : Slots) (entry : Entry ε Field W) : Outcome ε Slots := do
  let key ← entry.1
  match key with
  | .state =>
    let v ← r.u64s entry.2
    pure { slots with state_lanes := some v }
  | .pos =>
    let v ← r.usize entry.2
    pure { slots with pos := some v }
  | .rate =>
    let v ← r.usize entry.2
    pure { slots with rate := some v }
  | .buffer =>
    let v ← r.bytes entry.2
    pure { slots with buffer_vec := some v }

/-- The checks of `visit_map`. -/
def Slots.build (slots : Slots) : Outcome ε Sha3_512State := do
  let sv ← ok_or slots.state_lanes (.missing_field "state")
  let pv ← ok_or slots.pos (.missing_field "pos")
  let rv ← ok_or slots.rate (.missing_field "rate")
  let bv ← ok_or slots.buffer_vec (.missing_field "buffer")
  let state : Lanes := Vector.replicate 25 0
  if sv.length ≠ 25 then
    throw (.invalid_length sv.length "25")
  let state ← copy_from_slice state 0 25 sv
  let buffer : Vector U8 200 := Vector.replicate 200 0
  if bv.length ≠ 200 then
    throw (.invalid_length bv.length "200")
  let buffer ← copy_from_slice buffer 0 200 bv
  pure { state, pos := pv, rate := rv, buffer }

def visit_map (r : Reader ε W) (entries : List (Entry ε Field W)) : Outcome ε Sha3_512State := do
  let slots ← entries.foldlM (read_entry r) ⟨none, none, none, none⟩
  slots.build

def StateVisitor (r : Reader ε W) : Visitor ε Field W Sha3_512State where
  expecting := "struct Sha3_512State"
  visit_map := some (visit_map r)

/-- `deserialize_struct` with the visitor: the format picks the shape. The visitor asks
for entries until there is none, so nothing is left that a format could refuse. -/
def Sha3_512State.deserialize (r : Reader ε W) (shape : Shape ε Field W) : Outcome ε Sha3_512State :=
  (StateVisitor r).visit shape

/-! ## What the visitor reads -/

/-- The key of the entry is `f`. -/
def isFor (f : Field) (entry : Entry ε Field W) : Bool :=
  match entry.1 with
  | .ok g => g == f
  | .error _ => false

theorem isFor_iff {f : Field} {entry : Entry ε Field W} : isFor f entry ↔ entry.1 = .ok f := by
  unfold isFor
  cases entry.1 with
  | ok g => simp
  | error e => simp

/-- The value of the last entry of a field. -/
def last {α : Type} (f : Field) (get : W → Except (Error ε) α) (entries : List (Entry ε Field W)) : Option α := do
  let entry ← (entries.filter (isFor f)).getLast?
  (get entry.2).toOption

/-- The last value of each field. -/
def lastValues (r : Reader ε W) (entries : List (Entry ε Field W)) : Slots where
  state_lanes := last .state r.u64s entries
  pos := last .pos r.usize entries
  rate := last .rate r.usize entries
  buffer_vec := last .buffer r.bytes entries

/-- The key is read as a field, and the value as one of its type. -/
def Readable (r : Reader ε W) (entry : Entry ε Field W) : Prop :=
  match entry.1 with
  | .ok .state => ∃ v, r.u64s entry.2 = .ok v
  | .ok .pos => ∃ v, r.usize entry.2 = .ok v
  | .ok .rate => ∃ v, r.usize entry.2 = .ok v
  | .ok .buffer => ∃ v, r.bytes entry.2 = .ok v
  | .error _ => False

theorem last_concat {α : Type} (f : Field) {g : Field} (get : W → Except (Error ε) α) (entries : List (Entry ε Field W))
    {entry : Entry ε Field W} (h : entry.1 = .ok g) :
    last f get (entries ++ [entry]) = if g = f then (get entry.2).toOption else last f get entries := by
  unfold last
  rw [List.filter_append]
  by_cases hg : g = f
  · have hfor : isFor f entry = true := by simp [isFor, h, hg]
    rw [if_pos hg, List.filter_cons_of_pos hfor, List.filter_nil, List.getLast?_concat]
    rfl
  · have hfor : ¬isFor f entry = true := by simp [isFor, h, hg]
    rw [if_neg hg, List.filter_cons_of_neg hfor, List.filter_nil, List.append_nil]

/-- Reading the value of an entry into its slot. -/
theorem read_value_spec {α : Type} {r : Reader ε W} {entries : List (Entry ε Field W)} {entry : Entry ε Field W}
    (get : W → Except (Error ε) α) (set : α → Slots) (hread : Readable r entry ↔ ∃ v, get entry.2 = .ok v)
    (hset : ∀ v, get entry.2 = .ok v → set v = lastValues r (entries ++ [entry])) :
    Settles (do let v ← get entry.2; pure (set v) : Outcome ε Slots)
      (fun slots => Readable r entry ∧ slots = lastValues r (entries ++ [entry])) (fun _ => ¬Readable r entry) := by
  refine Settles.bind (P := fun v => get entry.2 = .ok v) (.read (fun v hv => hv) fun e he => ?_) fun v hv => ?_
  · rw [hread, he]
    rintro ⟨v, ⟨⟩⟩
  · exact .ret ⟨hread.2 ⟨v, hv⟩, hset v hv⟩

theorem read_entry_spec (r : Reader ε W) (entries : List (Entry ε Field W)) (entry : Entry ε Field W) :
    Settles (read_entry r (lastValues r entries) entry)
      (fun slots => Readable r entry ∧ slots = lastValues r (entries ++ [entry])) (fun _ => ¬Readable r entry) := by
  unfold read_entry
  refine Settles.bind (P := fun f => entry.1 = .ok f) (.read (fun f hf => hf) fun e he => ?_) fun f hf => ?_
  · simp [Readable, he]
  · have hlast {α : Type} (f' : Field) (get : W → Except (Error ε) α) := last_concat f' get entries hf
    cases f with
    | state =>
      refine read_value_spec r.u64s _ (by simp [Readable, hf]) fun v hv => ?_
      simp [lastValues, hlast, hv, Except.toOption]
    | pos =>
      refine read_value_spec r.usize _ (by simp [Readable, hf]) fun v hv => ?_
      simp [lastValues, hlast, hv, Except.toOption]
    | rate =>
      refine read_value_spec r.usize _ (by simp [Readable, hf]) fun v hv => ?_
      simp [lastValues, hlast, hv, Except.toOption]
    | buffer =>
      refine read_value_spec r.bytes _ (by simp [Readable, hf]) fun v hv => ?_
      simp [lastValues, hlast, hv, Except.toOption]

/-- The loop ends with the last value of each field, or stops at an entry that is
not readable. -/
theorem read_entries_spec (r : Reader ε W) (entries : List (Entry ε Field W)) :
    Settles (entries.foldlM (read_entry r) ⟨none, none, none, none⟩)
      (fun slots => (∀ entry ∈ entries, Readable r entry) ∧ slots = lastValues r entries)
      (fun _ => ∃ entry ∈ entries, ¬Readable r entry) := by
  refine Settles.foldlM (fun xs slots => (∀ entry ∈ xs, Readable r entry) ∧ slots = lastValues r xs) ⟨nofun, rfl⟩
    entries ?_
  rintro xs entry slots ⟨hxs, rfl⟩ hmem
  refine (read_entry_spec r xs entry).mono ?_ fun _ h => ⟨entry, hmem, h⟩
  rintro slots ⟨hentry, rfl⟩
  refine ⟨fun entry' h => ?_, rfl⟩
  rcases List.mem_append.1 h with h | h
  · exact hxs entry' h
  · rwa [List.mem_singleton.1 h]

/-! ## What the visitor checks -/

/-- The slots of a sponge. -/
def Slots.of (s : Sha3_512State) : Slots := ⟨some s.state.toList, some s.pos, some s.rate, some s.buffer.toList⟩

theorem Slots.of_injective : Function.Injective Slots.of := by
  rintro ⟨state, pos, rate, buffer⟩ ⟨state', pos', rate', buffer'⟩ h
  simpa [Slots.of, Vector.toList_inj] using h

/-- What an error of the checks says. -/
inductive Refused (slots : Slots) : Error ε → Prop
  | no_state (h : slots.state_lanes = none) : Refused slots (.missing_field "state")
  | no_pos (h : slots.pos = none) : Refused slots (.missing_field "pos")
  | no_rate (h : slots.rate = none) : Refused slots (.missing_field "rate")
  | no_buffer (h : slots.buffer_vec = none) : Refused slots (.missing_field "buffer")
  | state_length {sv : List U64} (h : slots.state_lanes = some sv) (hlen : sv.length ≠ 25) :
    Refused slots (.invalid_length sv.length "25")
  | buffer_length {bv : List U8} (h : slots.buffer_vec = some bv) (hlen : bv.length ≠ 200) :
    Refused slots (.invalid_length bv.length "200")

/-- The checks let through exactly the slots of a sponge. -/
theorem build_spec (slots : Slots) :
    Settles (slots.build : Outcome ε Sha3_512State) (fun s => slots = .of s) (Refused slots) := by
  unfold Slots.build
  refine Settles.bind (.ok_or (fun sv h => h) fun h => .no_state h) fun sv hsv => ?_
  refine Settles.bind (.ok_or (fun sv h => h) fun h => .no_pos h) fun pv hpv => ?_
  refine Settles.bind (.ok_or (fun sv h => h) fun h => .no_rate h) fun rv hrv => ?_
  refine Settles.bind (.ok_or (fun sv h => h) fun h => .no_buffer h) fun bv hbv => ?_
  by_cases hlen : sv.length = 25
  · rw [if_neg (not_not.2 hlen)]
    refine Settles.bind (.lift (copy_all_spec _ hlen)) fun state hstate => ?_
    by_cases hlen' : bv.length = 200
    · rw [if_neg (not_not.2 hlen')]
      refine Settles.bind (.lift (copy_all_spec _ hlen')) fun buffer hbuffer => ?_
      obtain ⟨state_lanes, pos, rate, buffer_vec⟩ := slots
      dsimp only at hsv hpv hrv hbv
      rw [hsv, hpv, hrv, hbv, ← hstate, ← hbuffer]
      exact .ret rfl
    · rw [if_pos hlen']
      exact .err (.buffer_length hbv hlen')
  · rw [if_pos hlen]
    exact .err (.state_length hsv hlen)

/-- No sponge has the slots that are refused. -/
theorem Refused.ne {slots : Slots} {e : Error ε} (h : Refused slots e) (s : Sha3_512State) : slots ≠ .of s := by
  rintro rfl
  cases h with
  | no_state h => exact absurd h (Option.some_ne_none _)
  | no_pos h => exact absurd h (Option.some_ne_none _)
  | no_rate h => exact absurd h (Option.some_ne_none _)
  | no_buffer h => exact absurd h (Option.some_ne_none _)
  | state_length h hlen =>
    obtain rfl := Option.some.inj h
    exact hlen s.state.length_toList
  | buffer_length h hlen =>
    obtain rfl := Option.some.inj h
    exact hlen s.buffer.length_toList

/-- The visitor returns a sponge exactly when every entry is readable and the last
values are those of the sponge. -/
theorem visit_map_spec (r : Reader ε W) (entries : List (Entry ε Field W)) :
    Settles (visit_map r entries)
      (fun s => (∀ entry ∈ entries, Readable r entry) ∧ lastValues r entries = .of s)
      (fun e => (∃ entry ∈ entries, ¬Readable r entry) ∨ Refused (lastValues r entries) e) := by
  unfold visit_map
  refine Settles.bind ((read_entries_spec r entries).mono (fun _ h => h) fun _ h => .inl h) ?_
  rintro slots ⟨hread, rfl⟩
  exact (build_spec _).mono (fun s hs => ⟨hread, hs⟩) fun e he => .inr he

theorem visit_map_eq {r : Reader ε W} {entries : List (Entry ε Field W)} {s : Sha3_512State}
    (hread : ∀ entry ∈ entries, Readable r entry) (hlast : lastValues r entries = .of s) :
    (visit_map r entries).run = .ok (.ok s) := by
  obtain ⟨res, hrun, hres⟩ := visit_map_spec r entries
  cases res with
  | ok s' =>
    obtain rfl : s = s' := Slots.of_injective (hlast.symm.trans hres.2)
    exact hrun
  | error e =>
    rcases hres with ⟨entry, hmem, h⟩ | h
    · exact absurd (hread entry hmem) h
    · exact absurd hlast (h.ne s)

/-! ## There and back -/

theorem last_of_perm {α : Type} {f : Field} (get : W → Except (Error ε) α) {entries written : List (Entry ε Field W)}
    {entry : Entry ε Field W} (h : entries.Perm written) (hone : written.filter (isFor f) = [entry]) :
    last f get entries = (get entry.2).toOption := by
  have hfilter : entries.filter (isFor f) = [entry] := by
    rw [← List.perm_singleton, ← hone]
    exact h.filter _
  rw [last, hfilter]
  rfl

/-- A map of what was written, in any order, is read back. -/
theorem deserialize_map (f : Format ε W) {s : Sha3_512State} (hpos : s.pos ≤ usizeMax) (hrate : s.rate ≤ usizeMax)
    {entries : List (String × W)} (h : entries.Perm (f.written s.serialize)) :
    (Sha3_512State.deserialize f.toReader (.map (entries.map fun entry => (Field.from_name entry.1, entry.2)))).run =
      .ok (.ok s) := by
  have hperm := h.map fun entry => ((Field.from_name entry.1, entry.2) : Entry ε Field W)
  refine visit_map_eq ?_ ?_
  · intro entry hentry
    have hmem := hperm.subset hentry
    simp only [Format.written, Sha3_512State.serialize, List.map_cons, List.map_nil, List.mem_cons,
      List.not_mem_nil, or_false] at hmem
    rcases hmem with rfl | rfl | rfl | rfl
    · exact ⟨_, f.u64s_write _⟩
    · exact ⟨_, f.usize_write _ hpos⟩
    · exact ⟨_, f.usize_write _ hrate⟩
    · exact ⟨_, f.bytes_write _⟩
  · -- each field has one entry, wherever it stands
    unfold lastValues Slots.of
    rw [last_of_perm f.u64s hperm rfl, last_of_perm (f := .pos) f.usize hperm rfl,
      last_of_perm (f := .rate) f.usize hperm rfl, last_of_perm f.bytes hperm rfl, f.u64s_write,
      f.usize_write _ hpos, f.usize_write _ hrate, f.bytes_write]
    rfl

/-- A sequence is refused, whatever it holds. -/
theorem deserialize_seq (r : Reader ε W) (values : List W) :
    (Sha3_512State.deserialize r (.seq values)).run = .ok (.error (.invalid_type "sequence" "struct Sha3_512State")) :=
  rfl

/-- What is written is read back exactly when the format presents a map. -/
theorem deserialize_serialize_iff (f : Format ε W) (s : Sha3_512State) (hpos : s.pos ≤ usizeMax)
    (hrate : s.rate ≤ usizeMax) (shape : Shape ε Field W) (h : f.Presents Field.from_name s.serialize shape) :
    (Sha3_512State.deserialize f.toReader shape).run = .ok (.ok s) ↔ ∃ entries, shape = .map entries := by
  cases h with
  | map h => exact iff_of_true (deserialize_map f hpos hrate h) ⟨_, rfl⟩
  | seq =>
    refine iff_of_false ?_ ?_
    · rw [deserialize_seq]
      rintro ⟨⟩
    · rintro ⟨entries, ⟨⟩⟩

/-- The entries of a new sponge, last one first. -/
theorem deserialize_serialize_reversed :
    (Sha3_512State.deserialize (Format.plain Empty).toReader
      (.map (((Format.plain Empty).written Sha3_512State.new.serialize).reverse.map fun entry =>
        (Field.from_name entry.1, entry.2)))).run = .ok (.ok .new) :=
  (deserialize_serialize_iff (.plain Empty) .new (by decide) (by decide) _ (.map (List.reverse_perm _))).2 ⟨_, rfl⟩

/-- The same values as a sequence, and what is returned for them. -/
theorem deserialize_serialize_seq :
    let shape : Shape Empty Field Value := .seq [.u64s (List.replicate 25 0), .usize 0, .usize 72, .bytes (List.replicate 200 0)]
    (Format.plain Empty).Presents Field.from_name Sha3_512State.new.serialize shape ∧
      (Sha3_512State.deserialize (Format.plain Empty).toReader shape).run =
        .ok (.error (.invalid_type "sequence" "struct Sha3_512State")) ∧
      (Sha3_512State.deserialize (Format.plain Empty).toReader shape).run ≠ .ok (.ok .new) := by
  intro shape
  have hwritten : shape = .seq (((Format.plain Empty).written Sha3_512State.new.serialize).map Prod.snd) := by
    simp [shape, Format.written, Format.plain, Sha3_512State.serialize, Sha3_512State.new, SHA3_512_RATE]
  refine ⟨?_, rfl, ?_⟩
  · rw [hwritten]
    exact .seq
  · rintro ⟨⟩

/-! ## Which entries make a usable sponge -/

/-- `absorb` and `finalize` return on the sponge, whatever the data. -/
structure Usable (s : Sha3_512State) : Prop where
  inv : Inv s
  absorb : ∀ (p : Platform) (data : Slice U8) (use_avx512 : Bool), Returns (s.absorb p data use_avx512) fun _ => True
  finalize : ∀ (p : Platform) (use_avx512 : Bool), Returns (s.finalize p use_avx512) fun _ => True

theorem Inv.usable {s : Sha3_512State} (h : Inv s) : Usable s := by
  obtain ⟨b, hb⟩ := h.holds
  exact ⟨h, fun p data use_avx512 => (absorb_spec p use_avx512 data hb).mono fun _ _ => trivial,
    fun p use_avx512 => (finalize_spec p use_avx512 hb).mono fun _ _ => trivial⟩

/-- The entries are refused, or their last `pos` and `rate` are those of a sponge
in use. -/
inductive Harmless (r : Reader ε W) (entries : List (Entry ε Field W)) : Prop
  | unreadable {entry : Entry ε Field W} (hmem : entry ∈ entries) (h : ¬Readable r entry)
  | missing (f : Field) (h : ∀ entry ∈ entries, ¬isFor f entry)
  | state_length {sv : List U64} (h : last .state r.u64s entries = some sv) (hlen : sv.length ≠ 25)
  | buffer_length {bv : List U8} (h : last .buffer r.bytes entries = some bv) (hlen : bv.length ≠ 200)
  | in_range {pv : Nat} (hrate : last .rate r.usize entries = some 72) (hpos : last .pos r.usize entries = some pv)
    (hlt : pv < 72)

theorem last_eq_none {α : Type} {f : Field} {get : W → Except (Error ε) α} {entries : List (Entry ε Field W)}
    (h : last f get entries = none) :
    (∀ entry ∈ entries, ¬isFor f entry) ∨ ∃ entry ∈ entries, entry.1 = .ok f ∧ ∀ v, get entry.2 ≠ .ok v := by
  unfold last at h
  cases hentry : (entries.filter (isFor f)).getLast? with
  | none =>
    left
    exact List.filter_eq_nil_iff.1 (List.getLast?_eq_none_iff.1 hentry)
  | some entry =>
    right
    obtain ⟨hmem, hfor⟩ := List.mem_filter.1 (List.mem_of_getLast? hentry)
    refine ⟨entry, hmem, isFor_iff.1 hfor, fun v hv => ?_⟩
    rw [hentry, Option.bind_eq_bind, Option.bind_some, hv] at h
    cases h

theorem last_of_missing {α : Type} {f : Field} (get : W → Except (Error ε) α) {entries : List (Entry ε Field W)}
    (h : ∀ entry ∈ entries, ¬isFor f entry) : last f get entries = none := by
  rw [last, List.filter_eq_nil_iff.2 h]
  rfl

/-- A slot is empty when its field is missing, or its last value is not readable. -/
theorem Harmless.of_none {α : Type} {r : Reader ε W} {entries : List (Entry ε Field W)} {f : Field}
    {get : W → Except (Error ε) α} (h : last f get entries = none)
    (hread : ∀ entry, entry.1 = .ok f → Readable r entry → ∃ v, get entry.2 = .ok v) : Harmless r entries := by
  rcases last_eq_none h with hmissing | ⟨entry, hmem, hkey, hvalue⟩
  · exact .missing f hmissing
  · refine .unreadable hmem fun hentry => ?_
    obtain ⟨v, hv⟩ := hread entry hkey hentry
    exact hvalue v hv

theorem Harmless.of_refused {r : Reader ε W} {entries : List (Entry ε Field W)} {e : Error ε}
    (h : Refused (lastValues r entries) e) : Harmless r entries := by
  cases h with
  | no_state h => exact .of_none h fun entry hkey hread => by simpa [Readable, hkey] using hread
  | no_pos h => exact .of_none h fun entry hkey hread => by simpa [Readable, hkey] using hread
  | no_rate h => exact .of_none h fun entry hkey hread => by simpa [Readable, hkey] using hread
  | no_buffer h => exact .of_none h fun entry hkey hread => by simpa [Readable, hkey] using hread
  | state_length h hlen => exact .state_length h hlen
  | buffer_length h hlen => exact .buffer_length h hlen

/-- A sponge that comes out of such entries has the invariant. -/
theorem Harmless.inv {r : Reader ε W} {entries : List (Entry ε Field W)} {s : Sha3_512State} (h : Harmless r entries)
    (hread : ∀ entry ∈ entries, Readable r entry) (hlast : lastValues r entries = .of s) : Inv s := by
  obtain ⟨hstate, hpos, hrate, hbuffer⟩ := Slots.mk.inj hlast
  cases h with
  | unreadable hmem h => exact absurd (hread _ hmem) h
  | missing f h =>
    cases f with
    | state => exact absurd (hstate.symm.trans (last_of_missing r.u64s h)) (Option.some_ne_none _)
    | pos => exact absurd (hpos.symm.trans (last_of_missing r.usize h)) (Option.some_ne_none _)
    | rate => exact absurd (hrate.symm.trans (last_of_missing r.usize h)) (Option.some_ne_none _)
    | buffer => exact absurd (hbuffer.symm.trans (last_of_missing r.bytes h)) (Option.some_ne_none _)
  | state_length h hlen =>
    obtain rfl := Option.some.inj (h.symm.trans hstate)
    exact absurd s.state.length_toList hlen
  | buffer_length h hlen =>
    obtain rfl := Option.some.inj (h.symm.trans hbuffer)
    exact absurd s.buffer.length_toList hlen
  | in_range hrate' hpos' hlt =>
    constructor
    · exact Option.some.inj (hrate.symm.trans hrate')
    · rw [Option.some.inj (hpos.symm.trans hpos')]
      exact hlt

theorem Harmless.of_inv {r : Reader ε W} {entries : List (Entry ε Field W)} {s : Sha3_512State}
    (hlast : lastValues r entries = .of s) (h : Inv s) : Harmless r entries := by
  obtain ⟨-, hpos, hrate, -⟩ := Slots.mk.inj hlast
  rw [h.rate] at hrate
  exact .in_range hrate hpos h.pos

/-- The visitor answers with an error or a usable sponge, for exactly these entries. -/
theorem visit_map_usable_iff (r : Reader ε W) (entries : List (Entry ε Field W)) :
    Settles (visit_map r entries) Usable (fun _ => True) ↔ Harmless r entries := by
  have hspec := visit_map_spec r entries
  constructor
  · intro h
    obtain ⟨res, hrun, hres⟩ := hspec
    obtain ⟨res', hrun', hres'⟩ := h
    obtain rfl : res = res' := Except.ok.inj (hrun.symm.trans hrun')
    cases res with
    | ok s => exact .of_inv hres.2 hres'.inv
    | error e =>
      rcases hres with ⟨entry, hmem, hentry⟩ | hrefused
      · exact .unreadable hmem hentry
      · exact .of_refused hrefused
  · intro h
    refine hspec.mono ?_ fun _ _ => trivial
    rintro s ⟨hread, hlast⟩
    exact (h.inv hread hlast).usable

/-- A stored sponge whose `pos` was changed to 73 is read without an error, and
absorbing nothing into it is an underflow. -/
theorem visit_map_unusable :
    let unusable : Sha3_512State := { Sha3_512State.new with pos := 73 }
    let entries : List (Entry Empty Field Value) := [
      (.ok .state, .u64s (List.replicate 25 0)),
      (.ok .pos, .usize 73),
      (.ok .rate, .usize 72),
      (.ok .buffer, .bytes (List.replicate 200 0))]
    (visit_map (Format.plain Empty).toReader entries).run = .ok (.ok unusable) ∧
      unusable.absorb ⟨true, true, true, true, true, true, true⟩ ⟨[], by decide⟩ true = .error .underflow ∧
      ¬Settles (visit_map (Format.plain Empty).toReader entries) Usable (fun _ => True) := by
  intro unusable entries
  have hwritten : entries = ((Format.plain Empty).written unusable.serialize).map fun entry =>
      (Field.from_name entry.1, entry.2) := by
    simp [entries, unusable, Field.from_name, Format.written, Format.plain, Sha3_512State.serialize, Sha3_512State.new,
      SHA3_512_RATE]
  have hrun : (visit_map (Format.plain Empty).toReader entries).run = .ok (.ok unusable) := by
    rw [hwritten]
    exact deserialize_map (.plain Empty) (by decide) (by decide) (.refl _)
  refine ⟨hrun, rfl, ?_⟩
  rintro ⟨res, hrun', hres⟩
  obtain rfl : .ok unusable = res := Except.ok.inj (hrun.symm.trans hrun')
  exact absurd hres.inv.pos (by decide)

end Sha3Kernel
