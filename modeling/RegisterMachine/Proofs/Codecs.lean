-- Codecs that are exact: what can be read are the bytes of a value with anything behind
-- them, and reading gives back the value and leaves what is behind. Words are exact, and
-- exact codecs put together are exact, so every codec of the format is.
import Mathlib.Algebra.Group.Nat.Defs
import Mathlib.Data.List.Nodup
import Mathlib.Data.List.Pairwise
import RegisterMachine.Program.Constant
import RegisterMachine.Proofs.SlotStates

namespace RegisterMachine.Codec

variable {α β : Type} {fits : α → Prop}

/-- The values that can be read are the ones that fit, each from its own bytes and from no
others, whatever comes behind them. -/
def Exact (codec : Codec α) (fits : α → Prop) : Prop :=
  ∀ input value rest, codec.decode input = .ok (value, rest) ↔
    fits value ∧ input = codec.encode value ++ rest

/-- What comes behind the bytes of a value does not change which value they are of. -/
theorem Exact.append_inj {codec : Codec α} (h : codec.Exact fits) {value other : α}
    {rest left : List UInt8} (hFits : fits value) (hFits' : fits other)
    (hSame : codec.encode value ++ rest = codec.encode other ++ left) :
    value = other ∧ rest = left := by
  have hValue := (h (codec.encode value ++ rest) value rest).2 ⟨hFits, rfl⟩
  have hOther := (h (codec.encode other ++ left) other left).2 ⟨hFits', rfl⟩
  rw [hSame, hOther] at hValue
  cases hValue
  exact ⟨rfl, rfl⟩

theorem Exact.congr {codec : Codec α} {fits' : α → Prop} (h : codec.Exact fits)
    (hFits : ∀ value, fits' value ↔ fits value) : codec.Exact fits' := by
  intro input value rest
  rw [h, hFits]

/-! ## Blocks and words -/

theorem cut_eq_ok {n : Nat} {input block rest : List UInt8} :
    cut n input = .ok (block, rest) ↔ block.length = n ∧ input = block ++ rest := by
  induction n generalizing input block with
  | zero => cases block <;> simp [cut, eq_comm]
  | succ n ih =>
    cases input with
    | nil => cases block <;> simp [cut]
    | cons byte input =>
      rw [cut]
      constructor
      · intro h
        split at h
        · rename_i found left hCut
          cases h
          obtain ⟨hLength, rfl⟩ := ih.1 hCut
          exact ⟨by simp [hLength], rfl⟩
        · cases h
      · rintro ⟨hLength, hInput⟩
        cases block with
        | nil => cases hLength
        | cons first found =>
          obtain ⟨rfl, hRest⟩ : byte = first ∧ input = found ++ rest := by simpa using hInput
          rw [ih.2 ⟨by simpa using hLength, hRest⟩]

theorem length_littleEndian (width n : Nat) : (littleEndian width n).length = width := by
  induction width generalizing n with
  | zero => rfl
  | succ width ih => rw [littleEndian, List.length_cons, ih]

theorem ofLittleEndian_lt (bytes : List UInt8) : ofLittleEndian bytes < 256 ^ bytes.length := by
  induction bytes with
  | nil => decide
  | cons byte bytes ih =>
    have hByte := byte.toNat_lt
    rw [ofLittleEndian, List.length_cons, Nat.pow_succ]
    omega

theorem ofLittleEndian_littleEndian {width n : Nat} (h : n < 256 ^ width) :
    ofLittleEndian (littleEndian width n) = n := by
  induction width generalizing n with
  | zero =>
    rw [Nat.pow_zero] at h
    rw [littleEndian, ofLittleEndian]
    omega
  | succ width ih =>
    have hRest : n / 256 < 256 ^ width := by
      rw [Nat.pow_succ] at h
      omega
    rw [littleEndian, ofLittleEndian, ih hRest, UInt8.toNat_ofNat']
    omega

theorem littleEndian_ofLittleEndian (bytes : List UInt8) :
    littleEndian bytes.length (ofLittleEndian bytes) = bytes := by
  induction bytes with
  | nil => rfl
  | cons byte bytes ih =>
    have hByte := byte.toNat_lt
    have hLow : UInt8.ofNat (byte.toNat + 256 * ofLittleEndian bytes) = byte := by
      apply UInt8.toNat_inj.1
      rw [UInt8.toNat_ofNat']
      omega
    have hHigh : (byte.toNat + 256 * ofLittleEndian bytes) / 256 = ofLittleEndian bytes := by
      omega
    rw [ofLittleEndian, List.length_cons, littleEndian, hLow, hHigh, ih]

/-- A word codec is exact when its numbers are those that `width` bytes can hold. -/
theorem exact_word {width : Nat} {toNat : α → Nat} {ofNat : Nat → α}
    (hLt : ∀ value, toNat value < 256 ^ width) (hOf : ∀ value, ofNat (toNat value) = value)
    (hTo : ∀ n < 256 ^ width, toNat (ofNat n) = n) :
    (word width toNat ofNat).Exact fun _ => True := by
  intro input value rest
  simp only [word, true_and]
  constructor
  · intro h
    split at h
    · rename_i block left hCut
      cases h
      obtain ⟨rfl, rfl⟩ := cut_eq_ok.1 hCut
      rw [hTo _ (ofLittleEndian_lt block), littleEndian_ofLittleEndian]
    · cases h
  · rintro rfl
    rw [cut_eq_ok.2 ⟨length_littleEndian width (toNat value), rfl⟩]
    simp only
    rw [ofLittleEndian_littleEndian (hLt value), hOf]

theorem exact_uint8 : uint8.Exact fun _ => True :=
  exact_word (·.toNat_lt) (fun _ => UInt8.ofNat_toNat) fun _ h => UInt8.toNat_ofNat_of_lt' h

theorem exact_uint16 : uint16.Exact fun _ => True :=
  exact_word (·.toNat_lt) (fun _ => UInt16.ofNat_toNat) fun _ h => UInt16.toNat_ofNat_of_lt' h

theorem exact_uint32 : uint32.Exact fun _ => True :=
  exact_word (·.toNat_lt) (fun _ => UInt32.ofNat_toNat) fun _ h => UInt32.toNat_ofNat_of_lt' h

theorem exact_uint64 : uint64.Exact fun _ => True :=
  exact_word (·.toNat_lt) (fun _ => UInt64.ofNat_toNat) fun _ h => UInt64.toNat_ofNat_of_lt' h

theorem exact_int16 : int16.Exact fun _ => True := by
  refine exact_word (fun value => value.toUInt16.toNat_lt) ?_ ?_
  · intro value
    rw [UInt16.ofNat_toNat]
    rfl
  · intro n hn
    rw [UInt16.toUInt16_toInt16, UInt16.toNat_ofNat_of_lt' hn]

theorem exact_int32 : int32.Exact fun _ => True := by
  refine exact_word (fun value => value.toUInt32.toNat_lt) ?_ ?_
  · intro value
    rw [UInt32.ofNat_toNat]
    rfl
  · intro n hn
    rw [UInt32.toUInt32_toInt32, UInt32.toNat_ofNat_of_lt' hn]

theorem exact_int64 : int64.Exact fun _ => True := by
  refine exact_word (fun value => value.toUInt64.toNat_lt) ?_ ?_
  · intro value
    rw [UInt64.ofNat_toNat]
    rfl
  · intro n hn
    rw [UInt64.toUInt64_toInt64, UInt64.toNat_ofNat_of_lt' hn]

theorem exact_block (n : Nat) : (block n).Exact fun _ => True := by
  intro input value rest
  simp only [block, true_and]
  constructor
  · intro h
    split at h
    · rename_i bytes left hCut
      cases h
      exact (cut_eq_ok.1 hCut).2
    · cases h
  · rintro rfl
    have hCut : cut n (value.toList ++ rest) = .ok (value.toList, rest) :=
      cut_eq_ok.2 ⟨by simp, rfl⟩
    split
    · rename_i bytes left hFound
      rw [hCut] at hFound
      cases hFound
      simp [Vector.toArray_toList]
    · rename_i hError
      rw [hCut] at hError
      cases hError

/-! ## Codecs made from others -/

theorem exact_unit : unit.Exact fun _ => True := by
  intro input value rest
  simp [unit]

theorem exact_pair {first : Codec α} {second : Codec β} {fits' : β → Prop}
    (h : first.Exact fits) (h' : second.Exact fits') :
    (first.pair second).Exact fun value => fits value.1 ∧ fits' value.2 := by
  rintro input ⟨a, b⟩ rest
  simp only [pair]
  constructor
  · intro hDecode
    obtain ⟨⟨_, left⟩, hFirst, hNext⟩ := Arena.bind_eq_ok.1 hDecode
    obtain ⟨⟨_, _⟩, hSecond, hValue⟩ := Arena.bind_eq_ok.1 hNext
    cases hValue
    obtain ⟨hFits, rfl⟩ := (h _ _ _).1 hFirst
    obtain ⟨hFits', rfl⟩ := (h' _ _ _).1 hSecond
    exact ⟨⟨hFits, hFits'⟩, (List.append_assoc _ _ _).symm⟩
  · rintro ⟨⟨hFits, hFits'⟩, rfl⟩
    refine Arena.bind_eq_ok.2 ⟨(a, second.encode b ++ rest), ?_, ?_⟩
    · exact (h _ _ _).2 ⟨hFits, List.append_assoc _ _ _⟩
    · exact Arena.bind_eq_ok.2 ⟨(b, rest), (h' _ _ _).2 ⟨hFits', rfl⟩, rfl⟩

/-- A value of `β` stands for one value of `α`, and is read from that one only. -/
theorem exact_refine {codec : Codec α} {view : β → α} {read? : α → Option β}
    (h : codec.Exact fits) (hRead : ∀ a b, read? a = some b ↔ a = view b) :
    (codec.refine view read?).Exact fun value => fits (view value) := by
  intro input value rest
  simp only [refine]
  constructor
  · intro hDecode
    obtain ⟨⟨a, left⟩, hFirst, hNext⟩ := Arena.bind_eq_ok.1 hDecode
    simp only at hNext
    split at hNext
    · rename_i b hFound
      cases hNext
      rw [← (hRead a value).1 hFound]
      exact (h _ _ _).1 hFirst
    · cases hNext
  · intro hInput
    refine Arena.bind_eq_ok.2 ⟨(view value, rest), (h _ _ _).2 hInput, ?_⟩
    simp only [(hRead (view value) value).2 rfl]
    rfl

theorem exact_map {codec : Codec α} {view : β → α} {build : α → β} (h : codec.Exact fits)
    (hBuild : ∀ value, build (view value) = value) (hView : ∀ a, view (build a) = a) :
    (codec.map view build).Exact fun value => fits (view value) := by
  intro input value rest
  simp only [map]
  constructor
  · intro hDecode
    obtain ⟨⟨a, left⟩, hFirst, hValue⟩ := Arena.bind_eq_ok.1 hDecode
    cases hValue
    rw [hView]
    exact (h _ _ _).1 hFirst
  · intro hInput
    refine Arena.bind_eq_ok.2 ⟨(view value, rest), (h _ _ _).2 hInput, ?_⟩
    rw [← hBuild value]
    simp only [hBuild]
    rfl

theorem exact_bool : bool.Exact fun _ => True := by
  refine exact_refine exact_uint8 ?_
  intro byte value
  split <;> cases value <;> simp_all

theorem exact_char : char.Exact fun _ => True := by
  refine exact_refine exact_uint32 ?_
  intro code value
  constructor
  · intro h
    split at h
    · cases h
      rfl
    · cases h
  · rintro rfl
    exact dif_pos value.valid

/-! ## Sequences -/

theorem decodeMany_eq_ok {codec : Codec α} (h : codec.Exact fits) {n : Nat} {done all : Array α}
    {input rest : List UInt8} :
    codec.decodeMany n done input = .ok (all, rest) ↔
      ∃ values : List α, values.length = n ∧ all = done ++ values.toArray ∧
        (∀ value ∈ values, fits value) ∧ input = values.flatMap codec.encode ++ rest := by
  induction n generalizing done input with
  | zero =>
    rw [decodeMany]
    constructor
    · intro hDone
      cases hDone
      exact ⟨[], rfl, by simp, by simp, rfl⟩
    · rintro ⟨values, hLength, rfl, -, rfl⟩
      cases List.length_eq_zero_iff.1 hLength
      simp
  | succ n ih =>
    rw [decodeMany]
    constructor
    · intro hDecode
      split at hDecode
      · rename_i value left hValue
        obtain ⟨hFits, rfl⟩ := (h _ _ _).1 hValue
        obtain ⟨values, rfl, rfl, hAll, rfl⟩ := ih.1 hDecode
        refine ⟨value :: values, rfl, by simp, ?_, by simp⟩
        exact List.forall_mem_cons.2 ⟨hFits, hAll⟩
      · cases hDecode
    · rintro ⟨values, hLength, rfl, hAll, rfl⟩
      cases values with
      | nil => cases hLength
      | cons value values =>
        obtain ⟨hFits, hAll⟩ := List.forall_mem_cons.1 hAll
        rw [List.flatMap_cons, List.append_assoc, (h _ _ _).2 ⟨hFits, rfl⟩]
        exact ih.2 ⟨values, by simpa using hLength, by simp, hAll, rfl⟩

theorem maxLength_lt : maxLength < 256 ^ 8 := by decide

/-- A sequence can be read when it is short enough and each of its values can be read. -/
theorem exact_array {codec : Codec α} (h : codec.Exact fits) :
    codec.array.Exact fun values => values.size ≤ maxLength ∧ ∀ value ∈ values, fits value := by
  intro input values rest
  have hMax := maxLength_lt
  simp only [array]
  constructor
  · intro hDecode
    obtain ⟨⟨length, left⟩, hLength, hNext⟩ := Arena.bind_eq_ok.1 hDecode
    obtain ⟨-, rfl⟩ := (exact_uint64 _ _ _).1 hLength
    simp only at hNext
    split at hNext
    · cases hNext
    · rename_i hShort
      obtain ⟨items, hItems, rfl, hAll, rfl⟩ := (decodeMany_eq_ok h).1 hNext
      refine ⟨⟨by simp; omega, by simpa using hAll⟩, ?_⟩
      simp [hItems, uint64, word]
  · rintro ⟨⟨hShort, hAll⟩, rfl⟩
    have hSize : (UInt64.ofNat values.size).toNat = values.size :=
      UInt64.toNat_ofNat_of_lt' (Nat.lt_of_le_of_lt hShort hMax)
    refine Arena.bind_eq_ok.2
      ⟨(UInt64.ofNat values.size, values.toList.flatMap codec.encode ++ rest), ?_, ?_⟩
    · refine (exact_uint64 _ _ _).2 ⟨trivial, ?_⟩
      simp [uint64, word, hSize]
    · simp only [hSize, if_neg (Nat.not_lt.2 hShort)]
      exact (decodeMany_eq_ok h).2 ⟨values.toList, by simp, by simp, by simpa using hAll, rfl⟩

theorem length_encode_array {codec : Codec α} {width : Nat}
    (h : ∀ value, (codec.encode value).length = width) (values : Array α) :
    (codec.array.encode values).length = 8 + width * values.size := by
  have hLengths : (values.toList.map fun value => (codec.encode value).length) =
      List.replicate values.size width := by
    simp [h, List.map_const']
  simp only [array, List.length_append, length_littleEndian, List.length_flatMap, hLengths,
    List.sum_replicate_nat]
  rw [Nat.mul_comm]

/-- A text can be read when its UTF-8 form is short enough. -/
theorem exact_string : string.Exact fun text => text.utf8ByteSize ≤ maxLength := by
  have hRead : ∀ (bytes : Array UInt8) (text : String),
      String.fromUTF8? ⟨bytes⟩ = some text ↔ bytes = text.toUTF8.data := by
    intro bytes text
    unfold String.fromUTF8?
    constructor
    · intro h
      split at h
      · cases h
        rfl
      · cases h
    · rintro rfl
      exact dif_pos text.isValidUTF8
  refine (exact_refine (exact_array exact_uint8) hRead).congr ?_
  intro text
  exact (and_iff_left fun _ _ => trivial).symm

/-! ## Alternatives -/

/-- The cases of a type: every value is a value of one case, and the tags tell the cases
apart. -/
structure Distinct (alternatives : List (Case α)) : Prop where
  tags : (alternatives.map Case.tag).Nodup
  payload? : ∀ case ∈ alternatives, ∀ value payload,
    case.payload? value = some payload ↔ value = case.build payload
  covers : ∀ value, ∃ case ∈ alternatives, ∃ payload, value = case.build payload
  apart : alternatives.Pairwise fun case other =>
    ∀ payload payload', case.build payload ≠ other.build payload'

section Alternatives

variable {alternatives : List (Case α)} (hDistinct : Distinct alternatives) {case : Case α}
  (hCase : case ∈ alternatives)

include hDistinct hCase

theorem Distinct.case_eq {other : Case α} (hOther : other ∈ alternatives) {value : α}
    {payload : case.Payload} {payload' : other.Payload} (h : case.payload? value = some payload)
    (h' : other.payload? value = some payload') : other = case := by
  by_contra hNe
  have hSymm : Std.Symm fun case other : Case α =>
      ∀ payload payload', case.build payload ≠ other.build payload' :=
    ⟨fun _ _ hBuild payload payload' => (hBuild payload' payload).symm⟩
  have hBuild := hDistinct.apart.forall hOther hCase hNe payload' payload
  rw [← (hDistinct.payload? case hCase _ _).1 h, ← (hDistinct.payload? other hOther _ _).1 h']
    at hBuild
  exact hBuild rfl

theorem encode_cases (payload : case.Payload) :
    (cases alternatives).encode (case.build payload) =
      uint8.encode case.tag ++ case.codec.encode payload := by
  have hOwn : case.payload? (case.build payload) = some payload :=
    (hDistinct.payload? case hCase _ payload).2 rfl
  generalize case.build payload = value at hOwn
  let write (case : Case α) : Option (List UInt8) := (case.payload? value).map fun payload =>
    uint8.encode case.tag ++ case.codec.encode payload
  change (alternatives.findSome? write).getD [] = _
  rcases hFind : alternatives.findSome? write with _ | bytes
  · have hNone := List.findSome?_eq_none_iff.1 hFind case hCase
    simp [write, hOwn] at hNone
  · obtain ⟨other, hOther, hBytes⟩ := List.exists_of_findSome?_eq_some hFind
    obtain ⟨found, hFound, rfl⟩ := Option.map_eq_some_iff.1 hBytes
    obtain rfl := hDistinct.case_eq hCase hOther hOwn hFound
    rw [hOwn] at hFound
    cases hFound
    rfl

theorem find?_tag : alternatives.find? (·.tag == case.tag) = some case := by
  rcases hFind : alternatives.find? (·.tag == case.tag) with _ | found
  · have hNone := List.find?_eq_none.1 hFind case hCase
    simp at hNone
  · have hTag : found.tag = case.tag := by simpa using List.find?_some hFind
    have hSame : found = case :=
      List.inj_on_of_nodup_map hDistinct.tags (List.mem_of_find?_eq_some hFind) hCase hTag
    rw [hFind, hSame]

end Alternatives

/-- A value fits when the payload of its case does. -/
theorem exact_cases {alternatives : List (Case α)} (hDistinct : Distinct alternatives)
    (h : ∀ case ∈ alternatives, case.codec.Exact fun payload => fits (case.build payload)) :
    (cases alternatives).Exact fits := by
  intro input value rest
  constructor
  · intro hDecode
    simp only [cases] at hDecode
    split at hDecode
    · cases hDecode
    · rename_i tag left hTag
      split at hDecode
      · cases hDecode
      · rename_i case hFind
        have hCase := List.mem_of_find?_eq_some hFind
        obtain rfl : case.tag = tag := by simpa using List.find?_some hFind
        split at hDecode
        · cases hDecode
        · rename_i payload left' hPayload
          cases hDecode
          obtain ⟨-, rfl⟩ := (exact_uint8 _ _ _).1 hTag
          obtain ⟨hFits, rfl⟩ := (h case hCase _ _ _).1 hPayload
          exact ⟨hFits, by rw [encode_cases hDistinct hCase, List.append_assoc]⟩
  · rintro ⟨hFits, rfl⟩
    obtain ⟨case, hCase, payload, rfl⟩ := hDistinct.covers value
    have hTag : uint8.decode (uint8.encode case.tag ++ (case.codec.encode payload ++ rest)) =
        .ok (case.tag, case.codec.encode payload ++ rest) := (exact_uint8 _ _ _).2 ⟨trivial, rfl⟩
    have hRead : case.codec.decode (case.codec.encode payload ++ rest) = .ok (payload, rest) :=
      (h case hCase _ _ _).2 ⟨hFits, rfl⟩
    rw [encode_cases hDistinct hCase, List.append_assoc]
    simp only [cases, hTag, find?_tag hDistinct hCase, hRead]

/-- The two cases of an option. -/
theorem distinct_option (codec : Codec α) : Distinct
    [{ tag := 0, Payload := Unit, codec := unit,
       payload? := fun value => if value.isNone then some () else none, build := fun _ => none },
     { tag := 1, Payload := α, codec := codec, payload? := id, build := some }] := by
  refine ⟨by simp, ?_, ?_, by simp⟩
  · simp only [List.forall_mem_cons, List.not_mem_nil, false_implies, implies_true, and_true]
    refine ⟨?_, fun _ _ => Iff.rfl⟩
    intro found payload
    cases found <;> simp
  · intro found
    cases found <;> simp

theorem exact_option {codec : Codec α} (h : codec.Exact fits) :
    codec.option.Exact fun found => ∀ value, found = some value → fits value := by
  refine exact_cases (distinct_option codec) ?_
  simp only [List.forall_mem_cons, List.not_mem_nil, false_implies, implies_true, and_true]
  exact ⟨exact_unit.congr (by simp), h.congr (by simp)⟩

/-! ## The law -/

/-- The codecs of the format, each with the values that have no sequence above the limit:
words (which also hold sizes and the bits of floats), flags, characters, texts, blocks,
sequences, options, and the structures and alternatives that are made from others. A
structure is written as its fields, one after the other. -/
inductive Standard : {α : Type} → Codec α → (α → Prop) → Prop
  | uint8 : Standard uint8 fun _ => True
  | uint16 : Standard uint16 fun _ => True
  | uint32 : Standard uint32 fun _ => True
  | uint64 : Standard uint64 fun _ => True
  | int16 : Standard int16 fun _ => True
  | int32 : Standard int32 fun _ => True
  | int64 : Standard int64 fun _ => True
  | bool : Standard bool fun _ => True
  | char : Standard char fun _ => True
  | string : Standard string fun text => text.utf8ByteSize ≤ maxLength
  | block (n : Nat) : Standard (block n) fun _ => True
  | array {α : Type} {codec : Codec α} {fits : α → Prop} (h : Standard codec fits) :
      Standard codec.array fun values => values.size ≤ maxLength ∧ ∀ value ∈ values, fits value
  | option {α : Type} {codec : Codec α} {fits : α → Prop} (h : Standard codec fits) :
      Standard codec.option fun found => ∀ value, found = some value → fits value
  | unit : Standard unit fun _ => True
  | pair {α β : Type} {first : Codec α} {second : Codec β} {fits : α → Prop} {fits' : β → Prop}
      (h : Standard first fits) (h' : Standard second fits') :
      Standard (first.pair second) fun value => fits value.1 ∧ fits' value.2
  | record {α β : Type} {codec : Codec α} {fits : α → Prop} {view : β → α} {build : α → β}
      (h : Standard codec fits) (build_view : ∀ value, build (view value) = value)
      (view_build : ∀ fields, view (build fields) = fields) :
      Standard (codec.map view build) fun value => fits (view value)
  | cases {α : Type} {alternatives : List (Case α)} {fits : α → Prop}
      (distinct : Distinct alternatives)
      (h : ∀ case ∈ alternatives, Standard case.codec fun payload => fits (case.build payload)) :
      Standard (cases alternatives) fits

theorem Standard.exact {codec : Codec α} (h : Standard codec fits) : codec.Exact fits := by
  induction h with
  | uint8 => exact exact_uint8
  | uint16 => exact exact_uint16
  | uint32 => exact exact_uint32
  | uint64 => exact exact_uint64
  | int16 => exact exact_int16
  | int32 => exact exact_int32
  | int64 => exact exact_int64
  | bool => exact exact_bool
  | char => exact exact_char
  | string => exact exact_string
  | block n => exact exact_block n
  | array _ ih => exact exact_array ih
  | option _ ih => exact exact_option ih
  | unit => exact exact_unit
  | pair _ _ ih ih' => exact exact_pair ih ih'
  | record _ hBuild hView ih => exact exact_map ih hBuild hView
  | cases hDistinct _ ih => exact exact_cases hDistinct ih

/-- With every codec of the format, a value whose sequences are short enough is read back
from its bytes, and what comes behind them is left; and whatever is read was the bytes of
the value that it is read as. -/
theorem reading_undoes_writing_and_nothing_else {codec : Codec α} (h : Standard codec fits) :
    (∀ value rest, fits value → codec.decode (codec.encode value ++ rest) = .ok (value, rest)) ∧
    ∀ input value rest, codec.decode input = .ok (value, rest) →
      input = codec.encode value ++ rest ∧ fits value := by
  refine ⟨?_, ?_⟩
  · intro value rest hFits
    exact (h.exact _ _ _).2 ⟨hFits, rfl⟩
  · intro input value rest hDecode
    exact ((h.exact _ _ _).1 hDecode).symm

end RegisterMachine.Codec

namespace RegisterMachine

theorem Constant.standard_codec : Codec.Standard Constant.codec fun _ => True := by
  refine .cases ⟨by decide, ?_, ?_, by simp⟩ ?_
  · simp only [List.forall_mem_cons, List.not_mem_nil, false_implies, implies_true, and_true]
    refine ⟨?_, ?_, ?_, ?_⟩
    all_goals
      intro constant payload
      cases constant <;> simp
  · intro constant
    cases constant <;> simp
  · simp only [List.forall_mem_cons, List.not_mem_nil, false_implies, implies_true, and_true]
    exact ⟨.int64, .uint64, .char, .bool⟩

/-- A sequence that holds a negative zero and a gap, with one byte behind it. -/
theorem Codec.constants_with_a_gap_are_read_back :
    Standard Constant.codec.option.array (fun values => values.size ≤ maxLength ∧
      ∀ value ∈ values, ∀ constant, value = some constant → True) ∧
    Constant.codec.option.array.decode
        (Constant.codec.option.array.encode #[some (.float 0x8000000000000000), none] ++ [7]) =
      .ok (#[some (.float 0x8000000000000000), none], [7]) := by
  have hStandard := Constant.standard_codec.option.array
  exact ⟨hStandard, (reading_undoes_writing_and_nothing_else hStandard).1 _ _ (by decide)⟩

end RegisterMachine
