-- The places in a line. A character stands in a char literal, in a comment or outside of both,
-- and the characters before it tell which. The scan of a line follows these places: a token
-- starts outside, at the start of the line or behind a separator, and its column points there.
import RegisterMachine.Assembly.Token

namespace RegisterMachine.Assembly

/-! ## Places -/

inductive Place where
  | outside
  /-- Behind a quote that is not closed yet. -/
  | literal
  | comment
  deriving DecidableEq, Repr

namespace Place

/-- The place behind a character. -/
def next : Place → Char → Place
  | .outside, c => if c = '#' then .comment else if c = '\'' then .literal else .outside
  | .literal, c => if c = '\'' then .outside else .literal
  | .comment, _ => .comment

/-- The place behind a text. -/
def after (place : Place) (text : List Char) : Place := text.foldl next place

variable (place : Place) (text : List Char) {c : Char}

theorem after_cons (c : Char) : place.after (c :: text) = (place.next c).after text := rfl

theorem after_append (more : List Char) :
    place.after (text ++ more) = (place.after text).after more := List.foldl_append

/-- A comment has no end inside its line. -/
theorem after_comment : comment.after text = .comment := by
  induction text with
  | nil => rfl
  | cons c cs ih => exact ih

/-- A comment begins at a hash that stands outside. -/
theorem of_next_eq_comment (h : place.next c = .comment) :
    place = .comment ∨ place = .outside ∧ c = '#' := by
  cases place with
  | outside =>
    rw [next] at h
    split at h
    · exact .inr ⟨rfl, ‹_›⟩
    · split at h <;> cases h
  | literal =>
    rw [next] at h
    split at h <;> cases h
  | comment => exact .inl rfl

theorem next_of_isSeparator (h : isSeparator c = true) : outside.next c = .outside := by
  have hHash : c ≠ '#' := by
    rintro rfl
    cases h
  have hQuote : c ≠ '\'' := by
    rintro rfl
    cases h
  rw [next, if_neg hHash, if_neg hQuote]

end Place

/-- The length of a text as the source has it, in bytes. -/
def bytes (text : List Char) : Nat := (String.ofList text).utf8ByteSize

theorem bytes_concat (text : List Char) (c : Char) :
    bytes (text ++ [c]) = bytes text + c.utf8Size := by
  rw [bytes, String.ofList_append, String.utf8ByteSize_append, ← String.singleton_eq_ofList,
    String.utf8ByteSize_singleton]
  rfl

/-- A token of the line starts at the column. -/
def StartsToken (line : List Char) (column : Nat) : Prop :=
  ∃ before c after, line = before ++ c :: after ∧ column = bytes before + 1 ∧
    Place.outside.after before = .outside ∧
    (∀ last, before.getLast? = some last → isSeparator last = true) ∧
    isSeparator c = false ∧ c ≠ '#'

/-! ## One character -/

/-- The place at which a scan is. -/
def placeOf : Option OpenToken → Place
  | none => .outside
  | some token => if token.quoted then .literal else .outside

section Step

variable {token : OpenToken} {c : Char}

theorem placeOf_some : placeOf (some token) = .outside ↔ ¬ token.quoted = true := by
  change (if token.quoted = true then Place.literal else Place.outside) = .outside ↔ _
  split <;> simp [*]

theorem placeOf_ne_comment (state : Option OpenToken) : placeOf state ≠ .comment := by
  rcases state with _ | token
  · exact nofun
  · change (if token.quoted = true then Place.literal else Place.outside) ≠ .comment
    split <;> exact nofun

theorem placeOf_start (h : c ≠ '#') (column : Nat) :
    placeOf (some (.start c column)) = Place.outside.next c := by
  unfold placeOf OpenToken.start
  rw [Place.next, if_neg h]
  simp only [beq_iff_eq]

theorem placeOf_add (h : token.quoted = true ∨ c ≠ '#') :
    placeOf (some (token.add c)) = (placeOf (some token)).next c := by
  unfold placeOf OpenToken.add
  rcases hQuoted : token.quoted with _ | _
  · have hHash : c ≠ '#' := h.resolve_left (by rw [hQuoted]; decide)
    by_cases hQuote : c = '\'' <;> simp [Place.next, hHash, hQuoted, hQuote]
  · by_cases hQuote : c = '\'' <;> simp [Place.next, hQuoted, hQuote]

end Step

/-! ## Where tokens start -/

/-- A scan that has read `before` of a line: an open token starts somewhere in there, and
without one a token may start now. -/
structure Follows (line before : List Char) (state : Option OpenToken) : Prop where
  place : placeOf state = Place.outside.after before
  opened : ∀ token, state = some token → StartsToken line token.column
  idle : state = none → ∀ last, before.getLast? = some last → isSeparator last = true

section Starts

variable {line before rest : List Char} {token : OpenToken} {c : Char}

theorem follows_nil (line : List Char) : Follows line [] none := ⟨rfl, nofun, nofun⟩

theorem after_concat : Place.outside.after (before ++ [c]) = (Place.outside.after before).next c :=
  Place.after_append _ _ _

theorem Follows.separator {state : Option OpenToken} (h : Follows line before state)
    (hPlace : placeOf state = .outside) (hSeparator : isSeparator c = true) :
    Follows line (before ++ [c]) none := by
  refine ⟨?_, nofun, fun _ last hLast => ?_⟩
  · rw [after_concat, ← h.place, hPlace, Place.next_of_isSeparator hSeparator]
    rfl
  · rw [List.getLast?_concat] at hLast
    cases hLast
    exact hSeparator

theorem Follows.start (h : Follows line before none) (hLine : line = before ++ c :: rest)
    (hHash : c ≠ '#') (hSeparator : isSeparator c = false) :
    Follows line (before ++ [c]) (some (.start c (bytes before + 1))) := by
  refine ⟨?_, ?_, nofun⟩
  · rw [after_concat, ← h.place, placeOf_start hHash]
    rfl
  · rintro _ ⟨⟩
    exact ⟨before, c, rest, hLine, rfl, h.place.symm, h.idle rfl, hSeparator, hHash⟩

theorem Follows.add (h : Follows line before (some token))
    (hInside : token.quoted = true ∨ c ≠ '#') :
    Follows line (before ++ [c]) (some (token.add c)) := by
  refine ⟨?_, ?_, nofun⟩
  · rw [after_concat, ← h.place, placeOf_add hInside]
  · rintro _ ⟨⟩
    exact h.opened token rfl

/-- All columns of a scan point to starts of tokens. -/
def AllStart (line : List Char) : Except Nat (List Token) → Prop
  | .ok tokens => ∀ token ∈ tokens, StartsToken line token.column
  | .error column => StartsToken line column

theorem AllStart.cons {scanned : Except Nat (List Token)} {first : Token}
    (h : AllStart line scanned) (hFirst : StartsToken line first.column) :
    AllStart line (scanned.map (first :: ·)) := by
  rcases scanned with column | tokens
  · exact h
  · rintro other (_ | ⟨_, hMem⟩)
    · exact hFirst
    · exact h other hMem

/-- The scan of the rest of a line, after a scan of the start of it. -/
theorem allStart_scan {state : Option OpenToken} (h : Follows line before state)
    (hLine : line = before ++ rest) : AllStart line (scan state (bytes before + 1) rest) := by
  induction rest generalizing before state with
  | nil =>
    rcases state with _ | token
    · exact nofun
    · have hStart := h.opened token rfl
      rw [scan]
      split
      · exact hStart
      · rintro _ (_ | ⟨_, ⟨⟩⟩)
        exact hStart
  | cons c cs ih =>
    -- the next column is the number of bytes that are read once `c` is, plus one
    have hMore : line = (before ++ [c]) ++ cs := by rw [hLine, List.append_assoc]; rfl
    have hColumn : bytes before + 1 + c.utf8Size = bytes (before ++ [c]) + 1 := by
      rw [bytes_concat]
      omega
    rcases state with _ | token
    · rw [scan, hColumn]
      split
      · exact nofun
      · rename_i hHash
        split
        · rename_i hSeparator
          exact ih (h.separator rfl hSeparator) hMore
        · rename_i hSeparator
          exact ih (h.start hLine hHash (Bool.eq_false_iff.2 hSeparator)) hMore
    · have hStart := h.opened token rfl
      rw [scan, hColumn]
      split
      · rename_i hQuoted
        exact ih (h.add (.inl hQuoted)) hMore
      · rename_i hQuoted
        split
        · rintro _ (_ | ⟨_, ⟨⟩⟩)
          exact hStart
        · rename_i hHash
          split
          · rename_i hSeparator
            exact (ih (h.separator (placeOf_some.2 hQuoted) hSeparator) hMore).cons hStart
          · exact ih (h.add (.inr hHash)) hMore

/-- The columns of the tokens of a line point to their starts, and so does the column of a quote
that is not closed. -/
theorem allStart_tokens (line : List Char) : AllStart line (tokens line) :=
  allStart_scan (follows_nil line) rfl

end Starts

/-! ## What a line reads as -/

/-- The texts of scanned tokens. A quote that is not closed leaves none. -/
def textsOf (scanned : Except Nat (List Token)) : Option (List (List Char)) :=
  scanned.toOption.map (List.map Token.text)

/-- The words of a line, if every quote of it is closed. -/
def reading? (line : List Char) : Option (List (List Char)) := textsOf (tokens line)

theorem textsOf_cons (scanned : Except Nat (List Token)) (first : Token) :
    textsOf (scanned.map (first :: ·)) = (textsOf scanned).map ([first.text] ++ ·) := by
  cases scanned <;> rfl

/-- Scans that have read the same but started elsewhere. -/
inductive Alike : Option OpenToken → Option OpenToken → Prop
  | idle : Alike none none
  | opened (reversed : List Char) (quoted : Bool) (column other : Nat) :
      Alike (some ⟨reversed, column, quoted⟩) (some ⟨reversed, other, quoted⟩)

theorem Alike.textsOf_scan {state other : Option OpenToken} (h : Alike state other)
    (column column' : Nat) (rest : List Char) :
    textsOf (scan state column rest) = textsOf (scan other column' rest) := by
  induction rest generalizing state other column column' with
  | nil =>
    cases h with
    | idle => rfl
    | opened reversed quoted _ _ => cases quoted <;> rfl
  | cons c cs ih =>
    cases h with
    | idle =>
      rw [scan, scan]
      split
      · rfl
      · split
        · exact ih .idle _ _
        · exact ih (.opened _ _ _ _) _ _
    | opened reversed quoted start start' =>
      rw [scan, scan]
      split
      · exact ih (.opened _ _ _ _) _ _
      · split
        · rfl
        · split
          · rw [textsOf_cons, textsOf_cons, ih .idle]
            rfl
          · exact ih (.opened _ _ _ _) _ _

theorem alike_refl (state : Option OpenToken) : Alike state state := by
  rcases state with _ | token
  · exact .idle
  · exact .opened _ _ _ _

section Prefixes

variable {state : Option OpenToken} {c : Char}

/-- What a scan that is outside of char literals has left to close. -/
def closing (state : Option OpenToken) : List (List Char) :=
  (state.map fun token => token.close.text).toList

theorem textsOf_scan_nil (h : placeOf state = .outside) (column : Nat) :
    textsOf (scan state column []) = some (closing state) := by
  rcases state with _ | token
  · rfl
  · rw [scan, if_neg (placeOf_some.1 h)]
    rfl

theorem textsOf_scan_hash (h : placeOf state = .outside) (column : Nat) (rest : List Char) :
    textsOf (scan state column ('#' :: rest)) = some (closing state) := by
  rcases state with _ | token
  · rfl
  · rw [scan, if_neg (placeOf_some.1 h), if_pos rfl]
    rfl

theorem textsOf_scan_separator (h : placeOf state = .outside) (hSeparator : isSeparator c = true)
    (column : Nat) (rest : List Char) :
    textsOf (scan state column (c :: rest))
      = (textsOf (scan none column rest)).map (closing state ++ ·) := by
  have hHash : c ≠ '#' := by
    rintro rfl
    cases hSeparator
  rcases state with _ | token
  · rw [scan, if_neg hHash, if_pos hSeparator, Alike.idle.textsOf_scan _ column]
    simp [closing]
  · rw [scan, if_neg (placeOf_some.1 h), if_neg hHash, if_pos hSeparator, textsOf_cons,
      Alike.idle.textsOf_scan _ column]
    rfl

/-- One character that does not begin a comment. -/
theorem scan_step (h : (placeOf state).next c ≠ .comment) :
    ∃ texts next, placeOf next = (placeOf state).next c ∧ ∀ column rest,
      textsOf (scan state column (c :: rest))
        = (textsOf (scan next column rest)).map (texts ++ ·) := by
  by_cases hSeparator : placeOf state = .outside ∧ isSeparator c = true
  · refine ⟨closing state, none, ?_, fun column rest => ?_⟩
    · rw [hSeparator.1, Place.next_of_isSeparator hSeparator.2]
      rfl
    · exact textsOf_scan_separator hSeparator.1 hSeparator.2 column rest
  · rcases state with _ | token
    · have hHash : c ≠ '#' := by
        rintro rfl
        exact h rfl
      refine ⟨[], some (.start c 0), placeOf_start hHash 0, fun column rest => ?_⟩
      have hAlike : Alike (some (.start c column)) (some (.start c 0)) :=
        .opened [c] (c == '\'') column 0
      rw [scan, if_neg hHash, if_neg fun hEnd => hSeparator ⟨rfl, hEnd⟩,
        hAlike.textsOf_scan _ column]
      simp
    · have hInside : token.quoted = true ∨ c ≠ '#' := by
        by_cases hQuoted : token.quoted = true
        · exact .inl hQuoted
        · right
          rintro rfl
          rw [placeOf_some.2 hQuoted] at h
          exact h rfl
      refine ⟨[], some (token.add c), placeOf_add hInside, fun column rest => ?_⟩
      have hScan : scan (some token) column (c :: rest)
          = scan (some (token.add c)) (column + c.utf8Size) rest := by
        rw [scan]
        split
        · rfl
        · rename_i hOpen
          rw [if_neg (hInside.resolve_left hOpen),
            if_neg fun hEnd => hSeparator ⟨placeOf_some.2 hOpen, hEnd⟩]
      rw [hScan, (alike_refl _).textsOf_scan _ column]
      simp

/-- A text in which no comment begins. -/
theorem scan_prefix (state : Option OpenToken) {before : List Char}
    (h : (placeOf state).after before ≠ .comment) :
    ∃ texts next, placeOf next = (placeOf state).after before ∧ ∀ column rest,
      textsOf (scan state column (before ++ rest))
        = (textsOf (scan next column rest)).map (texts ++ ·) := by
  induction before generalizing state with
  | nil => exact ⟨[], state, rfl, by simp⟩
  | cons c cs ih =>
    have hStep : (placeOf state).next c ≠ .comment := by
      intro hComment
      rw [Place.after_cons, hComment, Place.after_comment] at h
      exact h rfl
    obtain ⟨first, middle, hMiddle, hFirst⟩ := scan_step hStep
    rw [Place.after_cons, ← hMiddle] at h ⊢
    obtain ⟨texts, next, hNext, hRest⟩ := ih middle h
    refine ⟨first ++ texts, next, hNext, fun column rest => ?_⟩
    rw [List.cons_append, hFirst, hRest, Option.map_map]
    simp [Function.comp_def]

/-- Behind the start of a comment nothing is read. -/
theorem scan_comment (state : Option OpenToken) {before : List Char}
    (h : (placeOf state).after before = .comment) :
    ∃ texts, ∀ column rest, textsOf (scan state column (before ++ rest)) = some texts := by
  induction before generalizing state with
  | nil => exact absurd h (placeOf_ne_comment state)
  | cons c cs ih =>
    by_cases hStep : (placeOf state).next c = .comment
    · obtain ⟨hPlace, rfl⟩ :=
        (Place.of_next_eq_comment _ hStep).resolve_left (placeOf_ne_comment state)
      exact ⟨closing state, fun column rest => textsOf_scan_hash hPlace column _⟩
    · obtain ⟨first, middle, hMiddle, hFirst⟩ := scan_step hStep
      rw [Place.after_cons, ← hMiddle] at h
      obtain ⟨texts, hRest⟩ := ih middle h
      refine ⟨first ++ texts, fun column rest => ?_⟩
      rw [List.cons_append, hFirst, hRest]
      rfl

end Prefixes

section Reading

variable {line : List Char}

theorem reading?_of_comment (h : Place.outside.after line = .comment) (more : List Char) :
    reading? (line ++ more) = reading? line := by
  obtain ⟨texts, hTexts⟩ := scan_comment none h
  have hLine := hTexts 1 []
  rw [List.append_nil] at hLine
  exact (hTexts 1 more).trans hLine.symm

/-- A line in which no comment begins. -/
theorem reading?_append (line : List Char) (h : Place.outside.after line ≠ .comment) :
    ∃ texts next, placeOf next = Place.outside.after line ∧
      ∀ more, reading? (line ++ more) = (textsOf (scan next 1 more)).map (texts ++ ·) := by
  obtain ⟨texts, next, hNext, hTexts⟩ := scan_prefix none h
  exact ⟨texts, next, hNext, hTexts 1⟩

theorem reading?_of_literal (h : Place.outside.after line = .literal) : reading? line = none := by
  obtain ⟨texts, next, hNext, hTexts⟩ := reading?_append line (by rw [h]; decide)
  rw [h] at hNext
  rcases next with _ | token
  · cases hNext
  · have hQuoted : token.quoted = true := by
      apply Classical.byContradiction
      intro hOpen
      rw [placeOf_some.2 hOpen] at hNext
      cases hNext
    rw [← List.append_nil line, hTexts, scan, if_pos hQuoted]
    rfl

/-- A line that ends outside of char literals has words. A comment leaves them alone, and a
separator adds the words behind it. -/
theorem reading?_of_outside (h : Place.outside.after line = .outside) :
    ∃ texts, reading? line = some texts ∧ (∀ more, reading? (line ++ '#' :: more) = some texts) ∧
      ∀ c more, isSeparator c = true →
        reading? (line ++ c :: more) = (reading? more).map (texts ++ ·) := by
  obtain ⟨texts, next, hNext, hTexts⟩ := reading?_append line (by rw [h]; decide)
  rw [h] at hNext
  refine ⟨texts ++ closing next, ?_, fun more => ?_, fun c more hSeparator => ?_⟩
  · rw [← List.append_nil line, hTexts, textsOf_scan_nil hNext]
    rfl
  · rw [hTexts, textsOf_scan_hash hNext]
    rfl
  · rw [hTexts, textsOf_scan_separator hNext hSeparator, Option.map_map]
    simp [Function.comp_def, reading?, tokens]

end Reading

end RegisterMachine.Assembly
