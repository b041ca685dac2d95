-- Images of programs. The bytes that can be read as a program are the images of the
-- programs that pass the checks and are not too long, so a program has one image, and a
-- program that was saved is the program that is loaded.
import Mathlib
import RegisterMachine.Proofs.Codecs
import RegisterMachine.Proofs.ValidStreams
import RegisterMachine.Shell.Storage

namespace RegisterMachine

open Codec

/-! ## The codecs of the parts -/

theorem Header.exact_codec : Header.codec.Exact fun _ => True :=
  (exact_map (exact_pair exact_uint32 (exact_pair exact_uint32 exact_uint32))
    (fun _ => rfl) fun _ => rfl).congr (by simp)

theorem Opcode.exact_codec : Opcode.codec.Exact fun _ => True :=
  exact_map exact_uint16 (fun _ => rfl) fun _ => rfl

theorem Instruction.exact_codec : Instruction.codec.Exact fun _ => True :=
  (exact_map (exact_pair Opcode.exact_codec
    (exact_pair exact_uint16 (exact_pair exact_uint16 exact_uint16)))
    (fun _ => rfl) fun _ => rfl).congr (by simp)

namespace Program

/-- The program has no more constants and no more instructions than an image can hold. -/
def FitsImage (program : Program) : Prop :=
  program.constants.size ≤ maxLength ∧ program.instructions.size ≤ maxLength

theorem Version.exact_codec : Version.codec.Exact fun _ => True :=
  (exact_map (exact_pair exact_uint8 (exact_pair exact_uint8 exact_uint8))
    (fun _ => rfl) fun _ => rfl).congr (by simp)

theorem exact_codec : codec.Exact FitsImage :=
  (exact_map (exact_pair Header.exact_codec (exact_pair
    (exact_array Constant.standard_codec.exact) (exact_array Instruction.exact_codec)))
    (fun _ => rfl) fun _ => rfl).congr (by simp [FitsImage])

/-! ## Reading an image -/

theorem readPart_eq_ok {α : Type} {part : Codec α} {input rest : List UInt8} {value : α} :
    readPart part input = .ok (value, rest) ↔ part.decode input = .ok (value, rest) := by
  unfold readPart
  cases part.decode input <;> simp [Except.mapError]

/-- What is read of an image before its body. -/
theorem ofBytes_start (body : List UInt8) :
    ofBytes ((block 4).encode magic ++ Version.codec.encode version ++ body) = (do
      let (program, rest) ← readPart codec body
      if !rest.isEmpty then throw (.invalidImage .trailingBytes)
      make program.header program.constants program.instructions) := by
  have hMark : readPart (block 4) ((block 4).encode magic ++
      (Version.codec.encode version ++ body)) = .ok (magic, Version.codec.encode version ++ body) :=
    readPart_eq_ok.2 ((exact_block 4 _ _ _).2 ⟨trivial, rfl⟩)
  have hVersion : readPart Version.codec (Version.codec.encode version ++ body) =
      .ok (version, body) := readPart_eq_ok.2 ((Version.exact_codec _ _ _).2 ⟨trivial, rfl⟩)
  have hLong : ¬ (((block 4).encode magic ++ (Version.codec.encode version ++ body)).take
      4).length < 4 := by
    rw [List.length_take, List.length_append, show ((block 4).encode magic).length = 4 from rfl]
    omega
  unfold ofBytes
  rw [List.append_assoc, if_neg hLong, hMark]
  simp only [bind, Except.bind, ne_eq, not_true_eq_false, if_false, hVersion]

theorem ofBytes_eq_ok {bytes : List UInt8} {program : Program} :
    ofBytes bytes = .ok program ↔
      bytes = program.toBytes ∧ program.FitsImage ∧
        validate program.instructions = .ok () ∧
        program.constants.size ≤ program.header.globalCount.toNat := by
  constructor
  · intro h
    unfold ofBytes at h
    obtain ⟨⟨mark, afterMark⟩, hMark, h⟩ := Arena.bind_eq_ok.1 (check_eq_ok h)
    simp only at h
    split at h
    · cases h
    · rename_i hMagic
      obtain ⟨⟨found, afterVersion⟩, hVersion, h⟩ := Arena.bind_eq_ok.1 h
      simp only at h
      split at h
      · cases h
      · rename_i hFound
        obtain ⟨⟨body, rest⟩, hBody, h⟩ := Arena.bind_eq_ok.1 h
        simp only at h
        split at h
        · cases h
        · rename_i hRest
          obtain ⟨⟨hValid, hFit⟩, rfl⟩ := make_eq_ok.1 h
          obtain rfl : mark = magic := by simpa using hMagic
          obtain rfl : found = version := by simpa using hFound
          obtain rfl : rest = [] := by simpa using hRest
          obtain ⟨-, rfl⟩ := (exact_block 4 _ _ _).1 (readPart_eq_ok.1 hMark)
          obtain ⟨-, rfl⟩ := (Version.exact_codec _ _ _).1 (readPart_eq_ok.1 hVersion)
          obtain ⟨hLimits, rfl⟩ := (exact_codec _ _ _).1 (readPart_eq_ok.1 hBody)
          exact ⟨by simp [toBytes], hLimits, hValid, hFit⟩
  · rintro ⟨rfl, hLimits, hValid, hFit⟩
    have hBody : readPart codec (codec.encode program) = .ok (program, []) :=
      readPart_eq_ok.2 ((exact_codec _ _ _).2 ⟨hLimits, by simp⟩)
    unfold toBytes
    rw [ofBytes_start, hBody]
    exact make_eq_ok.2 ⟨⟨hValid, hFit⟩, rfl⟩

/-! ## Programs that are too long -/

/-- The bytes tell how many constants and instructions there are. -/
theorem fitsImage_of_encode_eq {program other : Program}
    (hSame : codec.encode program = codec.encode other)
    (hSize : program.constants.size < 256 ^ 8) (hFits : other.FitsImage) : program.FitsImage := by
  have hConstants := exact_array Constant.standard_codec.exact
  have hMax := maxLength_lt
  obtain ⟨-, hRest⟩ := Header.exact_codec.append_inj trivial trivial hSame
  have hCount : program.constants.size = other.constants.size := by
    simp only [pair, array, List.append_assoc] at hRest
    have hPrefix := (List.append_inj hRest (by simp only [length_littleEndian])).1
    have hNumber := congrArg ofLittleEndian hPrefix
    rwa [ofLittleEndian_littleEndian hSize,
      ofLittleEndian_littleEndian (Nat.lt_of_le_of_lt hFits.1 hMax)] at hNumber
  have hShort : program.constants.size ≤ maxLength := hCount ▸ hFits.1
  obtain ⟨-, hCode⟩ := hConstants.append_inj ⟨hShort, by simp⟩ ⟨hFits.1, by simp⟩ hRest
  have hLength : (Instruction.codec.array.encode program.instructions).length =
      (Instruction.codec.array.encode other.instructions).length := congrArg List.length hCode
  have hWidth : ∀ ins, (Instruction.codec.encode ins).length = 8 := fun _ => rfl
  rw [length_encode_array hWidth, length_encode_array hWidth] at hLength
  refine ⟨hShort, ?_⟩
  have hFit := hFits.2
  omega

theorem ofBytes_of_long {program : Program} (hSize : program.constants.size < 256 ^ 8)
    (hLong : ¬ program.FitsImage) :
    ∃ defect, ofBytes program.toBytes = .error (.invalidImage defect) := by
  unfold toBytes
  rw [ofBytes_start]
  rcases hRead : codec.decode (codec.encode program) with cause | ⟨found, rest⟩
  · refine ⟨.unreadable cause, ?_⟩
    simp only [readPart, hRead]
    rfl
  · obtain ⟨hFits, hBytes⟩ := (exact_codec _ _ _).1 hRead
    rw [readPart_eq_ok.2 hRead]
    cases rest with
    | nil =>
      rw [List.append_nil] at hBytes
      exact absurd (fitsImage_of_encode_eq hBytes hSize hFits) hLong
    | cons byte rest => exact ⟨.trailingBytes, rfl⟩

end Program

/-! ## Files -/

namespace Files

variable {files : Files} (written : List String) (content : List UInt8)

/-- A place that was a directory is one after a write. -/
theorem isDirectory_put {place : List String} (h : files.isDirectory place = true) :
    (files.put written content).isDirectory place = true := by
  unfold isDirectory put at *
  simp only [Bool.or_eq_true, List.any_eq_true, List.mem_append, List.mem_filter] at h ⊢
  rcases h with h | ⟨entry, hMem, hBelow⟩
  · exact Or.inl h
  · by_cases hPlace : entry.1 = written
    · exact Or.inr ⟨(written, content), Or.inr (by simp), hPlace ▸ hBelow⟩
    · exact Or.inr ⟨entry, Or.inl ⟨hMem, by simpa using hPlace⟩, hBelow⟩

theorem enter_put {here there : List String} {part : String}
    (h : files.enter here part = .ok there) :
    (files.put written content).enter here part = .ok there := by
  by_cases hHere : part = "."
  · simpa [enter, hHere] using h
  · by_cases hUp : part = ".."
    · simpa [enter, hUp] using h
    · by_cases hLong : maxNameSize < part.utf8ByteSize
      · simp [enter, hHere, hUp, lookUp, hLong, bind, Except.bind] at h
      · by_cases hDirectory : files.isDirectory (here ++ [part]) = true
        · have hStill := isDirectory_put written content hDirectory
          simpa [enter, hHere, hUp, lookUp, node?, hLong, hDirectory, hStill] using h
        · rcases hContent : files.content? (here ++ [part]) with _ | found <;>
            simp [enter, hHere, hUp, lookUp, node?, hLong, hDirectory, hContent, bind, Except.bind,
              throw, throwThe, MonadExceptOf.throw] at h

theorem follow_put {parts here there : List String} (h : files.follow here parts = .ok there) :
    (files.put written content).follow here parts = .ok there := by
  induction parts generalizing here with
  | nil => exact h
  | cons part parts ih =>
    obtain ⟨next, hEnter, hFollow⟩ := Arena.bind_eq_ok.1 h
    exact Arena.bind_eq_ok.2 ⟨next, enter_put written content hEnter, ih hFollow⟩

/-- A path leads to the same place after a write. -/
theorem target_put {path : String} {target : Target} (h : files.target path = .ok target) :
    (files.put written content).target path = .ok target := by
  by_cases hNul : path.toList.contains '\x00' = true
  · simp only [Files.target, hNul, if_true] at h
    cases h
  · by_cases hEmpty : path = ""
    · simp only [Files.target, hEmpty, if_true] at h
      cases h
    · by_cases hLong : maxPathSize < path.utf8ByteSize
      · simp only [Files.target, hNul, hEmpty, hLong, if_true] at h
        cases h
      · simp only [Files.target, hNul, hEmpty, hLong] at h ⊢
        obtain ⟨directory, hFollow, hTarget⟩ := Arena.bind_eq_ok.1 h
        exact Arena.bind_eq_ok.2 ⟨directory, follow_put written content hFollow, hTarget⟩

/-- What was written is found, unless its place is a directory. -/
theorem node?_put (h : files.isDirectory written = false) :
    (files.put written content).node? written = some (.file content) := by
  have hFile : (files.put written content).isDirectory written = false := by
    unfold isDirectory put at *
    simp only [Bool.or_eq_false_iff, List.any_append, List.any_filter, List.any_cons,
      List.any_nil] at h ⊢
    refine ⟨h.1, ?_, by simp⟩
    have hOld := h.2
    simp only [List.any_eq_false] at hOld ⊢
    intro entry hMem
    simp [hOld entry hMem]
  unfold node?
  rw [hFile]
  have hNew : (files.files.filter (·.1 != written)).find? (·.1 == written) = none := by
    simp
  simp [content?, put, List.find?_append, hNew]

theorem read_of_write {files' : Files} {path : String}
    (h : files.write path content = .ok files') : files'.read path = .ok content := by
  obtain ⟨target, hTarget, h⟩ := Arena.bind_eq_ok.1 h
  by_cases hPlain : (target.isDots || target.slashed) = true
  · simp only [hPlain, if_true] at h
    cases h
  · simp only [hPlain] at h
    obtain ⟨node, hNode, h⟩ := Arena.bind_eq_ok.1 h
    obtain ⟨hDots, hSlash⟩ : target.isDots = false ∧ target.slashed = false := by
      simpa using hPlain
    have hLong : ¬ maxNameSize < target.last.utf8ByteSize := by
      intro hLong
      simp [lookUp, hLong] at hNode
    have hDirectory : files.isDirectory target.place = false := by
      by_contra hNot
      have hDirectory : files.isDirectory (target.directory ++ [target.last]) = true := by
        simpa [Target.place] using hNot
      have hFound : some Node.directory = node := by
        simpa [lookUp, hLong, node?, hDirectory] using hNode
      subst hFound
      cases h
    have hPut : files' = files.put target.place content := by
      rcases node with _ | found | _
      · cases h
        rfl
      · cases h
        rfl
      · cases h
    subst hPut
    have hLook : (files.put target.place content).lookUp target.directory target.last =
        .ok (some (.file content)) := by
      unfold lookUp
      rw [if_neg hLong]
      exact congrArg Except.ok (node?_put target.place content hDirectory)
    have hFind : (files.put target.place content).find path = .ok (.file content) := by
      unfold find
      rw [target_put target.place content hTarget]
      simp only [bind, Except.bind, hDots, hSlash, hLook]
      rfl
    unfold read
    rw [hFind]
    rfl

end Files

namespace Storage

variable {files files' : Files} {path : String} {program : Program}

theorem save_eq_ok : (save Files.access path program).run files = (.ok (), files') ↔
    files.write path program.toBytes = .ok files' := by
  rcases hWrite : files.write path program.toBytes with reason | written
  · have hRun : (save Files.access path program).run files
        = (.error (fileError path reason), files) := by
      simp [save, Files.access, hWrite, Except.mapError]
      rfl
    rw [hRun]
    constructor <;> intro h <;> cases h
  · have hRun : (save Files.access path program).run files = (.ok (), written) := by
      simp [save, Files.access, hWrite, Except.mapError]
      rfl
    rw [hRun]
    constructor <;> intro h <;> cases h <;> rfl

/-- What is loaded from where a program was saved is what its image is read as. -/
theorem load_of_save (h : (save Files.access path program).run files = (.ok (), files')) :
    (load Files.access path).run files' = (Program.ofBytes program.toBytes, files') := by
  have hRead := Files.read_of_write program.toBytes (save_eq_ok.1 h)
  simp [load, Files.access, hRead]
  rfl

end Storage

/-! ## The law -/

namespace Program

/-- Bytes are read as a program when they are the image of it, its instructions are valid,
its constants fit into its globals, and neither is above the limit of the format. So a
program within the limits is loaded as it was saved, any other is refused for its image, and
no two images are read as one program. -/
theorem an_image_is_read_as_the_program_it_was_made_from :
    (∀ bytes program, ofBytes bytes = .ok program ↔
      bytes = program.toBytes ∧ validate program.instructions = .ok () ∧
        program.constants.size ≤ program.header.globalCount.toNat ∧
        program.constants.size ≤ 2 ^ 24 ∧ program.instructions.size ≤ 2 ^ 24) ∧
    (∀ header constants instructions program,
      make header constants instructions = .ok program →
      (program.constants.size ≤ 2 ^ 24 ∧ program.instructions.size ≤ 2 ^ 24 →
        ofBytes program.toBytes = .ok program) ∧
      (2 ^ 24 < program.constants.size ∨ 2 ^ 24 < program.instructions.size →
        ∃ defect, ofBytes program.toBytes = .error (.invalidImage defect)) ∧
      ∀ files path files',
        (Storage.save Files.access path program).run files = (.ok (), files') →
        (Storage.load Files.access path).run files' = (ofBytes program.toBytes, files')) ∧
    ∀ bytes bytes' program, ofBytes bytes = .ok program → ofBytes bytes' = .ok program →
      bytes = bytes' := by
  refine ⟨?_, ?_, ?_⟩
  · intro bytes program
    rw [ofBytes_eq_ok]
    exact ⟨fun ⟨hBytes, hFits, hValid, hFit⟩ => ⟨hBytes, hValid, hFit, hFits⟩,
      fun ⟨hBytes, hValid, hFit, hFits⟩ => ⟨hBytes, hFits, hValid, hFit⟩⟩
  · intro header constants instructions program hMake
    obtain ⟨⟨hValid, hFit⟩, rfl⟩ := make_eq_ok.1 hMake
    refine ⟨?_, ?_, ?_⟩
    · intro hFits
      exact ofBytes_eq_ok.2 ⟨rfl, hFits, hValid, hFit⟩
    · intro hLong
      have hGlobals := header.globalCount.toNat_lt
      refine ofBytes_of_long (show constants.size < 256 ^ 8 by omega) ?_
      rintro ⟨hConstants, hInstructions⟩
      rcases hLong with hLong | hLong
      · exact Nat.not_lt.2 hConstants hLong
      · exact Nat.not_lt.2 hInstructions hLong
    · intro files path files' hSave
      exact Storage.load_of_save hSave
  · intro bytes bytes' program hBytes hBytes'
    rw [(ofBytes_eq_ok.1 hBytes).1, (ofBytes_eq_ok.1 hBytes').1]

/-- A program whose constant is a NaN with a sign and a payload comes back from a file. -/
theorem a_marked_nan_is_loaded_as_it_was_saved :
    ∃ files',
      (Storage.save Files.access "p" ⟨{}, #[.float 0xFFF8000000000007], #[.sentinel]⟩).run
        { home := [] } = (.ok (), files') ∧
      (Storage.load Files.access "p").run files' =
        (.ok ⟨{}, #[.float 0xFFF8000000000007], #[.sentinel]⟩, files') := by
  let program : Program := ⟨{}, #[.float 0xFFF8000000000007], #[.sentinel]⟩
  have hMake : make {} #[.float 0xFFF8000000000007] #[.sentinel] = .ok program := by
    decide +kernel
  have hWrite : Files.write { home := [] } "p" program.toBytes =
      .ok (Files.put { home := [] } ["p"] program.toBytes) := by cbv
  have hSave := Storage.save_eq_ok.2 hWrite
  obtain ⟨hSame, -, hLoad⟩ :=
    an_image_is_read_as_the_program_it_was_made_from.2.1 _ _ _ program hMake
  exact ⟨_, hSave, hSame (by decide) ▸ hLoad _ _ _ hSave⟩

end Program

end RegisterMachine
