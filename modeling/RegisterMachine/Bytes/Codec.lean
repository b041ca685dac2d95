-- Binary codecs: a writer and a reader for one type of value. Words are
-- little-endian, sequences carry their length, and the codecs of larger types
-- are built from those of their parts.

namespace RegisterMachine

/-- Why bytes could not be read. -/
inductive DecodeError where
  /-- The bytes ended before the value was complete. -/
  | unexpectedEnd
  /-- The bytes form no value: a bad tag, flag, character or text. -/
  | invalidValue
  /-- The length of a sequence is above the limit. -/
  | lengthTooLarge
  deriving DecidableEq, Repr, Inhabited

def DecodeError.message : DecodeError → String
  | .unexpectedEnd => "unexpected end of input"
  | .invalidValue => "invalid value"
  | .lengthTooLarge => "length prefix too large"

/-- How the values of a type are written as bytes, and read from the front of
a byte string. -/
structure Codec (α : Type) where
  encode : α → List UInt8
  decode : List UInt8 → Except DecodeError (α × List UInt8)

namespace Codec

variable {α β : Type}

/-- Reads a value that spans all of the bytes. -/
def decodeAll (codec : Codec α) (input : List UInt8) : Except DecodeError α := do
  let (value, rest) ← codec.decode input
  if rest.isEmpty then pure value else throw .invalidValue

/-- The number of bytes that a value takes. -/
def size (codec : Codec α) (value : α) : Nat :=
  (codec.encode value).length

/-! ## Blocks and words -/

/-- Cuts exactly `n` bytes off the front. -/
def cut : Nat → List UInt8 → Except DecodeError (List UInt8 × List UInt8)
  | 0, input => .ok ([], input)
  | _ + 1, [] => .error .unexpectedEnd
  | n + 1, byte :: input =>
    match cut n input with
    | .ok (block, rest) => .ok (byte :: block, rest)
    | .error e => .error e

theorem length_of_cut_eq_ok {n : Nat} {input block rest : List UInt8}
    (h : cut n input = .ok (block, rest)) : block.length = n := by
  induction n generalizing input block with
  | zero => simp only [cut] at h; cases h; rfl
  | succ n ih =>
    cases input with
    | nil => simp [cut] at h
    | cons byte input =>
      simp only [cut] at h
      split at h
      · rename_i b r hb
        cases h
        simp [ih hb]
      · cases h

/-- The `width` low bytes of a number, lowest first. -/
def littleEndian : Nat → Nat → List UInt8
  | 0, _ => []
  | width + 1, n => UInt8.ofNat n :: littleEndian width (n / 256)

def ofLittleEndian : List UInt8 → Nat
  | [] => 0
  | byte :: bytes => byte.toNat + 256 * ofLittleEndian bytes

/-- Words of `width` bytes, through their unsigned value. -/
def word (width : Nat) (toNat : α → Nat) (ofNat : Nat → α) : Codec α where
  encode value := littleEndian width (toNat value)
  decode input :=
    match cut width input with
    | .ok (block, rest) => .ok (ofNat (ofLittleEndian block), rest)
    | .error e => .error e

def uint8 : Codec UInt8 := word 1 UInt8.toNat UInt8.ofNat

def uint16 : Codec UInt16 := word 2 UInt16.toNat UInt16.ofNat

def uint32 : Codec UInt32 := word 4 UInt32.toNat UInt32.ofNat

def uint64 : Codec UInt64 := word 8 UInt64.toNat UInt64.ofNat

def int16 : Codec Int16 :=
  word 2 (fun i => i.toUInt16.toNat) fun n => (UInt16.ofNat n).toInt16

def int32 : Codec Int32 :=
  word 4 (fun i => i.toUInt32.toNat) fun n => (UInt32.ofNat n).toInt32

def int64 : Codec Int64 :=
  word 8 (fun i => i.toUInt64.toNat) fun n => (UInt64.ofNat n).toInt64

/-- Blocks of exactly `n` bytes, without a length. -/
def block (n : Nat) : Codec (Vector UInt8 n) where
  encode bytes := bytes.toList
  decode input :=
    match h : cut n input with
    | .ok (bytes, rest) => .ok (⟨bytes.toArray, by simp [length_of_cut_eq_ok h]⟩, rest)
    | .error e => .error e

/-! ## Codecs made from others -/

/-- Writes nothing. -/
def unit : Codec Unit where
  encode _ := []
  decode input := .ok ((), input)

/-- Two values, one after the other. -/
def pair (first : Codec α) (second : Codec β) : Codec (α × β) where
  encode value := first.encode value.1 ++ second.encode value.2
  decode input := do
    let (a, input) ← first.decode input
    let (b, input) ← second.decode input
    pure ((a, b), input)

/-- The values of `β` by way of `α`; what stands for no value of `β` is refused. -/
def refine (codec : Codec α) (view : β → α) (read? : α → Option β) : Codec β where
  encode value := codec.encode (view value)
  decode input := do
    let (a, input) ← codec.decode input
    match read? a with
    | some b => pure (b, input)
    | none => throw .invalidValue

/-- The values of `β` by way of `α`, when both have the same values. -/
def map (codec : Codec α) (view : β → α) (build : α → β) : Codec β where
  encode value := codec.encode (view value)
  decode input := do
    let (a, input) ← codec.decode input
    pure (build a, input)

/-- One byte, 0 or 1. -/
def bool : Codec Bool :=
  uint8.refine (fun b => if b then 1 else 0) fun
    | 0 => some false
    | 1 => some true
    | _ => none

/-- A Unicode scalar value as four bytes. -/
def char : Codec Char :=
  uint32.refine Char.val fun n =>
    if h : n.isValidChar then some ⟨n, h⟩ else none

/-- The longest sequence that is read. -/
def maxLength : Nat := 1 <<< 24

/-- Reads `n` values and puts them behind `done`. -/
def decodeMany (codec : Codec α) :
    Nat → Array α → List UInt8 → Except DecodeError (Array α × List UInt8)
  | 0, done, input => .ok (done, input)
  | n + 1, done, input =>
    match codec.decode input with
    | .ok (value, rest) => decodeMany codec n (done.push value) rest
    | .error e => .error e

/-- A length of eight bytes, then the values. -/
def array (codec : Codec α) : Codec (Array α) where
  encode values := littleEndian 8 values.size ++ values.toList.flatMap codec.encode
  decode input := do
    let (length, input) ← uint64.decode input
    if maxLength < length.toNat then throw .lengthTooLarge
    decodeMany codec length.toNat #[] input

/-- A length of eight bytes, then the text in UTF-8. -/
def string : Codec String :=
  (array uint8).refine (fun s => s.toUTF8.data) fun bytes => String.fromUTF8? ⟨bytes⟩

/-- One case of a type of alternatives: its tag, and the values that it carries. -/
structure Case (α : Type) where
  tag : UInt8
  Payload : Type
  codec : Codec Payload
  /-- The payload of a value of this case. -/
  payload? : α → Option Payload
  build : Payload → α

/-- A tag of one byte, then the payload of its case. -/
def cases (alternatives : List (Case α)) : Codec α where
  encode value :=
    (alternatives.findSome? fun case =>
      (case.payload? value).map fun payload =>
        uint8.encode case.tag ++ case.codec.encode payload).getD []
  decode input :=
    match uint8.decode input with
    | .error e => .error e
    | .ok (tag, input) =>
      match alternatives.find? (·.tag == tag) with
      | none => .error .invalidValue
      | some case =>
        match case.codec.decode input with
        | .error e => .error e
        | .ok (payload, input) => .ok (case.build payload, input)

/-- Tag 0 for no value, tag 1 in front of a value. -/
def option (codec : Codec α) : Codec (Option α) :=
  cases
    [{ tag := 0, Payload := Unit, codec := unit,
       payload? := fun value => if value.isNone then some () else none, build := fun _ => none },
     { tag := 1, Payload := α, codec := codec, payload? := id, build := some }]

end Codec

end RegisterMachine
