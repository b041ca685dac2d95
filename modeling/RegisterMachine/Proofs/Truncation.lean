-- Bytes that are cut off. Every codec of the format takes its bytes before it looks at what
-- they say, and no value starts with the bytes of another; so a value of which the last bytes
-- are missing is refused because they are missing, and for no other reason.
import RegisterMachine.Proofs.Images

namespace RegisterMachine.Codec

variable {α β : Type} {fits : α → Prop}

/-- Where something is missing from the bytes of a value, the bytes end too early. -/
def NoticesCuts (codec : Codec α) (fits : α → Prop) : Prop :=
  ∀ value front missing, fits value → missing ≠ [] → codec.encode value = front ++ missing →
    codec.decode front = .error .unexpectedEnd

/-- Two parts in a row are cut off within the first or within the second. A cut between them
counts as one within the second, of which then nothing is left. -/
theorem cut_within {front missing first second : List UInt8}
    (h : first ++ second = front ++ missing) :
    (∃ more, more ≠ [] ∧ first = front ++ more) ∨
      ∃ back, front = first ++ back ∧ second = back ++ missing := by
  rcases List.append_eq_append_iff.1 h with ⟨back, hFront, hSecond⟩ | ⟨more, hFirst, hRest⟩
  · exact Or.inr ⟨back, hFront, hSecond⟩
  · by_cases hMore : more = []
    · subst hMore
      exact Or.inr ⟨[], by simpa using hFirst.symm, by simpa using hRest.symm⟩
    · exact Or.inl ⟨more, hMore, hFirst⟩

/-! ## Blocks and words -/

theorem cut_of_short {n : Nat} {input : List UInt8} (h : input.length < n) :
    cut n input = .error .unexpectedEnd := by
  induction n generalizing input with
  | zero => cases h
  | succ n ih =>
    cases input with
    | nil => rfl
    | cons byte input =>
      rw [cut, ih (by simpa using h)]

/-- What is left of `n` bytes is fewer than `n`. -/
theorem cut_of_missing {n : Nat} {whole front missing : List UInt8} (hLength : whole.length = n)
    (hMissing : missing ≠ []) (h : whole = front ++ missing) :
    cut n front = .error .unexpectedEnd := by
  apply cut_of_short
  have hPos := List.length_pos_iff.2 hMissing
  rw [h, List.length_append] at hLength
  omega

theorem noticesCuts_word {width : Nat} {toNat : α → Nat} {ofNat : Nat → α} :
    (word width toNat ofNat).NoticesCuts fits := by
  intro value front missing _ hMissing hBytes
  simp only [word] at hBytes ⊢
  rw [cut_of_missing (length_littleEndian width (toNat value)) hMissing hBytes]

theorem noticesCuts_uint8 : uint8.NoticesCuts fun _ => True := noticesCuts_word

theorem noticesCuts_uint32 : uint32.NoticesCuts fun _ => True := noticesCuts_word

theorem noticesCuts_uint64 : uint64.NoticesCuts fun _ => True := noticesCuts_word

theorem noticesCuts_block (n : Nat) : (block n).NoticesCuts fun _ => True := by
  intro value front missing _ hMissing hBytes
  have hCut : cut n front = .error .unexpectedEnd :=
    cut_of_missing (by simp) hMissing (show value.toList = front ++ missing from hBytes)
  simp only [block]
  split
  · rename_i hFound
    rw [hCut] at hFound
    cases hFound
  · rename_i hError
    rw [hCut] at hError
    exact congrArg Except.error (Except.error.inj hError).symm

/-! ## Codecs made from others -/

theorem noticesCuts_unit : unit.NoticesCuts fun _ => True := by
  intro value front missing _ hMissing hBytes
  have hNil : front = [] ∧ missing = [] := by simpa [unit] using hBytes
  exact absurd hNil.2 hMissing

theorem noticesCuts_pair {first : Codec α} {second : Codec β} {fits' : β → Prop}
    (hExact : first.Exact fits) (h : first.NoticesCuts fits) (h' : second.NoticesCuts fits') :
    (first.pair second).NoticesCuts fun value => fits value.1 ∧ fits' value.2 := by
  rintro ⟨a, b⟩ front missing ⟨hFits, hFits'⟩ hMissing hBytes
  simp only [pair] at hBytes ⊢
  rcases cut_within hBytes with ⟨more, hMore, hFirst⟩ | ⟨back, rfl, hSecond⟩
  · rw [h a front more hFits hMore hFirst]
    rfl
  · rw [(hExact _ _ _).2 ⟨hFits, rfl⟩]
    simp only [bind, Except.bind, h' b back missing hFits' hMissing hSecond]

theorem noticesCuts_refine {codec : Codec α} {view : β → α} {read? : α → Option β}
    (h : codec.NoticesCuts fits) :
    (codec.refine view read?).NoticesCuts fun value => fits (view value) := by
  intro value front missing hFits hMissing hBytes
  simp only [refine]
  rw [h (view value) front missing hFits hMissing hBytes]
  rfl

theorem noticesCuts_map {codec : Codec α} {view : β → α} {build : α → β}
    (h : codec.NoticesCuts fits) :
    (codec.map view build).NoticesCuts fun value => fits (view value) := by
  intro value front missing hFits hMissing hBytes
  simp only [map]
  rw [h (view value) front missing hFits hMissing hBytes]
  rfl

/-! ## Sequences -/

/-- Values in a row are cut off within one of them, and all before it are read. -/
theorem decodeMany_of_missing {codec : Codec α} (hExact : codec.Exact fits)
    (h : codec.NoticesCuts fits) {values : List α} {done : Array α} {front missing : List UInt8}
    (hFits : ∀ value ∈ values, fits value) (hMissing : missing ≠ [])
    (hBytes : values.flatMap codec.encode = front ++ missing) :
    codec.decodeMany values.length done front = .error .unexpectedEnd := by
  induction values generalizing done front with
  | nil =>
    have hNil : front = [] ∧ missing = [] := by simpa using hBytes
    exact absurd hNil.2 hMissing
  | cons value values ih =>
    obtain ⟨hValue, hValues⟩ := List.forall_mem_cons.1 hFits
    rw [List.flatMap_cons] at hBytes
    rw [List.length_cons, decodeMany]
    rcases cut_within hBytes with ⟨more, hMore, hFirst⟩ | ⟨back, rfl, hRest⟩
    · rw [h value front more hValue hMore hFirst]
    · rw [(hExact _ _ _).2 ⟨hValue, rfl⟩]
      exact ih hValues hRest

theorem noticesCuts_array {codec : Codec α} (hExact : codec.Exact fits)
    (h : codec.NoticesCuts fits) :
    codec.array.NoticesCuts fun values =>
      values.size ≤ maxLength ∧ ∀ value ∈ values, fits value := by
  rintro values front missing ⟨hShort, hFits⟩ hMissing hBytes
  have hSize : (UInt64.ofNat values.size).toNat = values.size :=
    UInt64.toNat_ofNat_of_lt' (Nat.lt_of_le_of_lt hShort maxLength_lt)
  have hLength : littleEndian 8 values.size = uint64.encode (UInt64.ofNat values.size) := by
    simp only [uint64, word, hSize]
  simp only [array, hLength] at hBytes ⊢
  rcases cut_within hBytes with ⟨more, hMore, hFirst⟩ | ⟨back, rfl, hRest⟩
  · rw [noticesCuts_uint64 _ front more trivial hMore hFirst]
    rfl
  · rw [(exact_uint64 _ _ _).2 ⟨trivial, rfl⟩]
    simp only [bind, Except.bind, hSize, if_neg (Nat.not_lt.2 hShort)]
    exact decodeMany_of_missing hExact h (by simpa using hFits) hMissing hRest

/-! ## Alternatives -/

theorem noticesCuts_cases {alternatives : List (Case α)} (hDistinct : Distinct alternatives)
    (h : ∀ case ∈ alternatives, case.codec.NoticesCuts fun payload => fits (case.build payload)) :
    (cases alternatives).NoticesCuts fits := by
  intro value front missing hFits hMissing hBytes
  obtain ⟨case, hCase, payload, rfl⟩ := hDistinct.covers value
  rw [encode_cases hDistinct hCase] at hBytes
  simp only [cases]
  rcases cut_within hBytes with ⟨more, hMore, hTag⟩ | ⟨back, rfl, hPayload⟩
  · rw [noticesCuts_uint8 _ front more trivial hMore hTag]
  · rw [(exact_uint8 _ _ _).2 ⟨trivial, rfl⟩]
    simp only [find?_tag hDistinct hCase,
      h case hCase payload back missing hFits hMissing hPayload]

theorem noticesCuts_option {codec : Codec α} (h : codec.NoticesCuts fits) :
    codec.option.NoticesCuts fun found => ∀ value, found = some value → fits value := by
  refine noticesCuts_cases (distinct_option codec) ?_
  simp only [List.forall_mem_cons, List.not_mem_nil, false_implies, implies_true, and_true]
  refine ⟨?_, ?_⟩
  · intro value front missing _
    exact noticesCuts_unit value front missing trivial
  · intro value front missing hFits
    exact h value front missing (hFits value rfl)

theorem Standard.noticesCuts {codec : Codec α} (h : Standard codec fits) :
    codec.NoticesCuts fits := by
  induction h with
  | uint8 | uint16 | uint32 | uint64 | int16 | int32 | int64 => exact noticesCuts_word
  | bool => exact noticesCuts_refine noticesCuts_uint8
  | char => exact noticesCuts_refine noticesCuts_uint32
  | string =>
    intro text front missing hShort
    exact noticesCuts_refine (noticesCuts_array exact_uint8 noticesCuts_uint8) text front missing
      ⟨hShort, fun _ _ => trivial⟩
  | block n => exact noticesCuts_block n
  | array h ih => exact noticesCuts_array h.exact ih
  | option _ ih => exact noticesCuts_option ih
  | unit => exact noticesCuts_unit
  | pair h _ ih ih' => exact noticesCuts_pair h.exact ih ih'
  | record _ _ _ ih => exact noticesCuts_map ih
  | cases hDistinct _ ih => exact noticesCuts_cases hDistinct ih

end RegisterMachine.Codec

/-! ## Images -/

namespace RegisterMachine.Program

open Codec

theorem Version.standard_codec : ∃ fits, Standard Version.codec fits ∧ ∀ found, fits found :=
  ⟨_, .record (.pair .uint8 (.pair .uint8 .uint8)) (fun _ => rfl) fun _ => rfl, by simp⟩

/-- The body of an image is written with codecs of the format. -/
theorem standard_codec :
    ∃ fits, Standard codec fits ∧ ∀ program : Program, program.FitsImage → fits program := by
  have hHeader : Standard Header.codec _ :=
    .record (.pair .uint32 (.pair .uint32 .uint32)) (fun _ => rfl) fun _ => rfl
  have hOpcode : Standard Opcode.codec _ := .record .uint16 (fun _ => rfl) fun _ => rfl
  have hInstruction : Standard Instruction.codec _ :=
    .record (.pair hOpcode (.pair .uint16 (.pair .uint16 .uint16))) (fun _ => rfl) fun _ => rfl
  refine ⟨_, .record (.pair hHeader (.pair (.array Constant.standard_codec)
    (.array hInstruction))) (fun _ => rfl) fun _ => rfl, ?_⟩
  rintro program ⟨hConstants, hInstructions⟩
  simp [hConstants, hInstructions]

theorem readPart_eq_error {α : Type} {part : Codec α} {input : List UInt8} {cause : DecodeError}
    (h : part.decode input = .error cause) :
    readPart part input = .error (.invalidImage (.unreadable cause)) := by
  unfold readPart
  rw [h]
  rfl

/-- An image is cut off within its mark, within its version or within its body. -/
theorem ofBytes_of_missing {program : Program} {front missing : List UInt8}
    (hFits : program.FitsImage) (hMissing : missing ≠ [])
    (hBytes : program.toBytes = front ++ missing) :
    ofBytes front = .error (.invalidImage
      (if front.length < 4 then .truncated else .unreadable .unexpectedEnd)) := by
  unfold toBytes at hBytes
  rw [List.append_assoc] at hBytes
  have hMark : ((block 4).encode magic).length = 4 := rfl
  rcases cut_within hBytes with ⟨more, hMore, hFirst⟩ | ⟨back, rfl, hRest⟩
  · have hShort : front.length < 4 := by
      have hPos := List.length_pos_iff.2 hMore
      rw [hFirst, List.length_append] at hMark
      omega
    have hTake : (front.take 4).length < 4 := by
      rw [List.length_take]
      omega
    unfold ofBytes
    rw [if_pos hTake, if_pos hShort]
    rfl
  · have hLong : ¬ ((block 4).encode magic ++ back).length < 4 := by
      rw [List.length_append, hMark]
      omega
    rw [if_neg hLong]
    rcases cut_within hRest with ⟨more, hMore, hVersion⟩ | ⟨body, rfl, hBody⟩
    · obtain ⟨fits, hStandard, hAll⟩ := Version.standard_codec
      have hCut := hStandard.noticesCuts version back more (hAll version) hMore hVersion
      have hRead : readPart (block 4) ((block 4).encode magic ++ back) = .ok (magic, back) :=
        readPart_eq_ok.2 ((exact_block 4 _ _ _).2 ⟨trivial, rfl⟩)
      have hTake : ¬ (((block 4).encode magic ++ back).take 4).length < 4 := by
        rw [List.length_take]
        omega
      unfold ofBytes
      rw [if_neg hTake, hRead]
      simp only [bind, Except.bind, ne_eq, not_true_eq_false, if_false, readPart_eq_error hCut]
    · obtain ⟨fits, hStandard, hAll⟩ := standard_codec
      have hCut := hStandard.noticesCuts program body missing (hAll program hFits) hMissing hBody
      rw [← List.append_assoc, ofBytes_start, readPart_eq_error hCut]
      rfl

/-! ## The law -/

/-- With every codec of the format, the bytes of a value whose sequences are short enough are
refused as bytes that end too early as soon as one at their end is missing, and never for
another reason. So what is left of the image of a program within the limits is never read as a
program; where not even the mark is whole, it is refused before anything is read. -/
theorem what_is_cut_off_is_refused_for_what_is_missing :
    (∀ {α : Type} {part : Codec α} {fits : α → Prop}, Standard part fits →
      ∀ value front, fits value → front <+: part.encode value → front ≠ part.encode value →
        part.decode front = .error .unexpectedEnd) ∧
    ∀ (program : Program) (front : List UInt8),
      program.constants.size ≤ 2 ^ 24 → program.instructions.size ≤ 2 ^ 24 →
      front <+: program.toBytes → front ≠ program.toBytes →
        ofBytes front = .error (.invalidImage
          (if front.length < 4 then .truncated else .unreadable .unexpectedEnd)) := by
  have hStrict : ∀ {front whole : List UInt8}, front <+: whole → front ≠ whole →
      ∃ missing, missing ≠ [] ∧ whole = front ++ missing := by
    rintro front whole ⟨missing, rfl⟩ hNe
    refine ⟨missing, ?_, rfl⟩
    rintro rfl
    exact hNe (List.append_nil front).symm
  refine ⟨?_, ?_⟩
  · intro α part fits hStandard value front hFits hPrefix hNe
    obtain ⟨missing, hMissing, hBytes⟩ := hStrict hPrefix hNe
    exact hStandard.noticesCuts value front missing hFits hMissing hBytes
  · intro program front hConstants hInstructions hPrefix hNe
    obtain ⟨missing, hMissing, hBytes⟩ := hStrict hPrefix hNe
    exact ofBytes_of_missing ⟨hConstants, hInstructions⟩ hMissing hBytes

/-- A text of one character whose second byte is missing, and an image without its last byte. -/
theorem half_a_character_and_half_a_sentinel_are_missed :
    string.decode [2, 0, 0, 0, 0, 0, 0, 0, 0xC3] = .error .unexpectedEnd ∧
    ofBytes (toBytes ⟨{}, #[.char 'é'], #[.sentinel]⟩).dropLast =
      .error (.invalidImage (.unreadable .unexpectedEnd)) := by
  have hText : string.encode "é" = [2, 0, 0, 0, 0, 0, 0, 0, 0xC3, 0xA9] := by decide +kernel
  have hLength : (toBytes ⟨{}, #[.char 'é'], #[.sentinel]⟩).length = 48 := by decide +kernel
  refine ⟨?_, ?_⟩
  · refine what_is_cut_off_is_refused_for_what_is_missing.1 .string "é" _ (by decide) ?_ ?_
    · rw [hText]
      decide
    · rw [hText]
      decide
  · refine (what_is_cut_off_is_refused_for_what_is_missing.2 ⟨{}, #[.char 'é'], #[.sentinel]⟩ _
      (by decide) (by decide) (List.dropLast_prefix _) ?_).trans ?_
    · intro hSame
      have hShorter := congrArg List.length hSame
      rw [List.length_dropLast, hLength] at hShorter
      omega
    · rw [List.length_dropLast, hLength]
      rfl

end RegisterMachine.Program
