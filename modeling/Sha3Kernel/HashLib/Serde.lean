import Sha3Kernel.HashLib.Bits
import Sha3Kernel.HashLib.Checked
/-!
# Reading and writing through a data format

The part of serde's data model that a hand-written pair of implementations for
a struct meets. A format is not known: it reads back what it wrote, may refuse
anything else, and picks whether a struct comes as a map or as a sequence. A
visitor answers with a value or an error, or panics; `Settles` is the judgement
that it does not panic.
-/

namespace HashLib.Serde

open Bits Checked

/-! ## Outcomes -/

/-- `de::Error`: an error of the format, or one a visitor raises. -/
inductive Error (ε : Type) where
  | custom (e : ε)
  | missing_field (field : String)
  | unknown_field (field : String) (expected : List String)
  | invalid_length (len : Nat) (expected : String)
  | invalid_type (unexpected expected : String)
  deriving DecidableEq, Repr

/-- `Ok`, `Err`, or a panic. -/
abbrev Outcome (ε : Type) := ExceptT (Error ε) Result

/-- `o.ok_or_else(|| e)?` -/
def ok_or {ε α : Type} (o : Option α) (e : Error ε) : Outcome ε α :=
  match o with
  | some x => pure x
  | none => throw e

/-- `m` does not panic: it returns a value satisfying `P` or an error satisfying
`E`. -/
def Settles {ε α : Type} (m : Outcome ε α) (P : α → Prop) (E : Error ε → Prop) : Prop :=
  Returns m.run fun r => match r with
    | .ok x => P x
    | .error e => E e

namespace Settles
variable {ε α β ι σ : Type} {P : α → Prop} {E : Error ε → Prop}

theorem ret {x : α} (h : P x) : Settles (pure x) P E := Returns.ret h

theorem err {e : Error ε} (h : E e) : Settles (throw e : Outcome ε α) P E := Returns.ret h

theorem mono {m : Outcome ε α} {Q : α → Prop} {F : Error ε → Prop} (h : Settles m P E) (hP : ∀ x, P x → Q x)
    (hE : ∀ e, E e → F e) : Settles m Q F := by
  refine Returns.mono h fun r hr => ?_
  cases r with
  | ok x => exact hP x hr
  | error e => exact hE e hr

theorem bind {m : Outcome ε α} {k : α → Outcome ε β} {Q : β → Prop} (h : Settles m P E)
    (hk : ∀ x, P x → Settles (k x) Q E) : Settles (m >>= k) Q E := by
  obtain ⟨r, hm, hr⟩ := h
  cases r with
  | ok x =>
    have hrun : (m >>= k).run = (k x).run := by
      rw [ExceptT.run_bind, hm]
      rfl
    rw [Settles, hrun]
    exact hk x hr
  | error e =>
    have hrun : (m >>= k).run = .ok (.error e) := by
      rw [ExceptT.run_bind, hm]
      rfl
    rw [Settles, hrun]
    exact Returns.ret hr

/-- A checked computation that does not fault. -/
theorem lift {m : Result α} (h : Returns m P) : Settles (liftM m : Outcome ε α) P E := by
  obtain ⟨x, rfl, hx⟩ := h
  exact Returns.ret hx

/-- A value the format was asked for. -/
theorem read {m : Except (Error ε) α} (hP : ∀ x, m = .ok x → P x) (hE : ∀ e, m = .error e → E e) :
    Settles (liftM m : Outcome ε α) P E := by
  cases m with
  | ok x => exact Returns.ret (hP x rfl)
  | error e => exact Returns.ret (hE e rfl)

theorem ok_or {o : Option α} {e : Error ε} (hP : ∀ x, o = some x → P x) (hE : o = none → E e) :
    Settles (ok_or o e) P E := by
  cases o with
  | some x => exact Returns.ret (hP x rfl)
  | none => exact Returns.ret (hE rfl)

/-- The invariant rule of a loop over the items of a list. -/
theorem foldlM {body : σ → ι → Outcome ε σ} (I : List ι → σ → Prop) {s : σ} (h : I [] s) (xs : List ι)
    (hbody : ∀ ys x s, I ys s → x ∈ xs → Settles (body s x) (I (ys ++ [x])) E) :
    Settles (xs.foldlM body s) (I xs) E := by
  -- from the back, so that `I` speaks of the items before the current one
  induction xs using List.reverseRecOn with
  | nil => exact .ret h
  | append_singleton xs x ih =>
    rw [List.foldlM_append]
    refine (ih fun ys y s hs hy => hbody ys y s hs (List.mem_append_left _ hy)).bind fun s hs => ?_
    refine (hbody xs x s hs (List.mem_append_right _ List.mem_cons_self)).bind fun s' hs' => ?_
    exact .ret hs'

end Settles

/-! ## Formats -/

/-- The values a struct is written as. -/
inductive Value where
  | u64s (xs : List U64)
  | usize (n : Nat)
  | bytes (xs : List U8)
  deriving DecidableEq

/-- What `serialize_struct` and the calls after it emit. -/
structure Struct where
  name : String
  len : Nat
  fields : List (String × Value)
  deriving DecidableEq

/-- What a format answers when it is asked for a value of a type. -/
structure Reader (ε W : Type) where
  u64s : W → Except (Error ε) (List U64)
  usize : W → Except (Error ε) Nat
  bytes : W → Except (Error ε) (List U8)

/-- A format reads back what it wrote. -/
structure Format (ε W : Type) extends Reader ε W where
  write : Value → W
  u64s_write : ∀ xs, u64s (write (.u64s xs)) = .ok xs
  usize_write : ∀ n, n ≤ usizeMax → usize (write (.usize n)) = .ok n
  bytes_write : ∀ xs, bytes (write (.bytes xs)) = .ok xs

/-- An entry of a map: what its key is read as, or why it cannot be read, and its
value. -/
abbrev Entry (ε F W : Type) := Except (Error ε) F × W

/-- A struct as `deserialize_struct` presents it. A map has its keys read, as fields
`F`, before its values. -/
inductive Shape (ε F W : Type) where
  | map (entries : List (Entry ε F W))
  | seq (values : List W)

/-- What a format hands to a visitor that asked for bytes: the bytes, the elements of
a sequence as they are read, or something else. -/
inductive ByteShape (ε : Type) where
  | bytes (v : List U8)
  | seq (elements : List (Except (Error ε) U8))
  | other (unexpected : String)

/-- What a format does about the elements that a visitor has left in a sequence. A
sequence that was read to its end is no error. -/
structure EndCheck (ε : Type) where
  check : List (Except (Error ε) U8) → Except (Error ε) Unit
  check_nil : check [] = .ok ()

/-- The fields of a struct as the format stores them. -/
def Format.written {ε W : Type} (f : Format ε W) (s : Struct) : List (String × W) :=
  s.fields.map fun field => (field.1, f.write field.2)

/-- The shapes in which a format may present a struct it wrote: the entries in any
order, each name read as the field it identifies, or the values in the order of the
fields. -/
inductive Format.Presents {ε F W : Type} (f : Format ε W) (identify : String → Except (Error ε) F) (s : Struct) :
    Shape ε F W → Prop
  | map {entries : List (String × W)} (h : entries.Perm (f.written s)) :
    f.Presents identify s (.map (entries.map fun entry => (identify entry.1, entry.2)))
  | seq : f.Presents identify s (.seq ((f.written s).map Prod.snd))

/-- The format that keeps the values as they are. -/
def Format.plain (ε : Type) : Format ε Value where
  write v := v
  u64s
    | .u64s xs => .ok xs
    | _ => .error (.invalid_type "another value" "a sequence of u64")
  usize
    | .usize n => .ok n
    | _ => .error (.invalid_type "another value" "usize")
  bytes
    | .bytes xs => .ok xs
    | _ => .error (.invalid_type "another value" "a sequence of u8")
  u64s_write _ := rfl
  usize_write _ _ := rfl
  bytes_write _ := rfl

/-- A visitor, with the methods it defines. -/
structure Visitor (ε F W α : Type) where
  expecting : String
  visit_map : Option (List (Entry ε F W) → Outcome ε α) := none
  visit_seq : Option (List W → Outcome ε α) := none

/-- A method that is not defined returns an invalid-type error. -/
def Visitor.visit {ε F W α : Type} (visitor : Visitor ε F W α) : Shape ε F W → Outcome ε α
  | .map entries =>
    match visitor.visit_map with
    | some visit_map => visit_map entries
    | none => throw (.invalid_type "map" visitor.expecting)
  | .seq values =>
    match visitor.visit_seq with
    | some visit_seq => visit_seq values
    | none => throw (.invalid_type "sequence" visitor.expecting)

end HashLib.Serde
