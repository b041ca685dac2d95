-- Texts that are put together from lines and words are read as these lines and words. The
-- columns of the tokens are left open, since only messages name them.
import RegisterMachine.Assembly.Token

namespace RegisterMachine.Assembly

/-! ## Lines -/

theorem linesFrom_append {line : List Char} (h : '\n' ∉ line) (done : List (List Char))
    (reversed rest : List Char) :
    linesFrom done reversed (line ++ rest) = linesFrom done (line.reverse ++ reversed) rest := by
  induction line generalizing reversed with
  | nil => rfl
  | cons c cs ih =>
    have hHead : c ≠ '\n' := by
      rintro rfl
      exact h List.mem_cons_self
    rw [List.cons_append, linesFrom, if_neg hHead, ih (fun hMem => h (List.mem_cons_of_mem c hMem)),
      List.reverse_cons, List.append_assoc, List.singleton_append]

/-- A line less the carriage return at its end. -/
def closed (line : List Char) : List Char := closeLine line.reverse

theorem closed_eq_self {line : List Char} (h : line.getLast? ≠ some '\r') : closed line = line := by
  unfold closed closeLine
  split
  · rename_i reversed heq
    rw [List.getLast?_eq_head?_reverse, heq] at h
    exact absurd rfl h
  · exact List.reverse_reverse line

/-- A line that can be told from the ends of lines around it. -/
def IsLine (line : List Char) : Prop := '\n' ∉ line ∧ line.getLast? ≠ some '\r'

theorem linesFrom_flatMap {texts : List (List Char)} (h : ∀ line ∈ texts, '\n' ∉ line)
    (done : List (List Char)) :
    linesFrom done [] (texts.flatMap (· ++ ['\n']))
      = done.reverse ++ texts.map closed := by
  induction texts generalizing done with
  | nil => simp [linesFrom]
  | cons line rest ih =>
    have hRest := ih (fun other hMem => h other (List.mem_cons_of_mem line hMem))
      (closed line :: done)
    rw [List.flatMap_cons, List.append_assoc, linesFrom_append (h line List.mem_cons_self),
      List.append_nil, List.singleton_append, linesFrom, if_pos rfl]
    exact hRest.trans (by simp)

/-- Lines that are ended by line feeds and put together are the lines of the whole, less the
carriage returns at their ends. -/
theorem lines_join {texts : List String} (h : ∀ line ∈ texts, '\n' ∉ line.toList) :
    lines (String.join (texts.map (· ++ "\n"))) = texts.map fun line => closed line.toList := by
  have hText : (String.join (texts.map (· ++ "\n"))).toList
      = (texts.map String.toList).flatMap (· ++ ['\n']) := by
    rw [String.toList_join, List.flatMap_map, List.flatMap_map]
    simp only [String.toList_append]
    rfl
  unfold lines
  rw [hText, linesFrom_flatMap (by simpa using h), List.reverse_nil, List.nil_append, List.map_map]
  rfl

theorem lines_join_of_isLine {texts : List String} (h : ∀ line ∈ texts, IsLine line.toList) :
    lines (String.join (texts.map (· ++ "\n"))) = texts.map String.toList := by
  rw [lines_join fun line hMem => (h line hMem).1]
  exact List.map_congr_left fun line hMem => closed_eq_self (h line hMem).2

/-! ## Words -/

/-- A character that neither ends a word nor is read in a special way. -/
def IsWordChar (c : Char) : Prop := isSeparator c = false ∧ c ≠ '#' ∧ c ≠ '\'' ∧ c ≠ '\n'

instance : DecidablePred IsWordChar := fun c =>
  inferInstanceAs (Decidable (isSeparator c = false ∧ c ≠ '#' ∧ c ≠ '\'' ∧ c ≠ '\n'))

theorem IsWordChar.ne {c : Char} (h : IsWordChar c) {other : Char}
    (hOther : ¬ IsWordChar other) : c ≠ other := by
  rintro rfl
  exact hOther h

theorem isWordChar_of_isAlphanum {c : Char} (h : c.isAlphanum = true) : IsWordChar c := by
  have hNe : ∀ other : Char, other.isAlphanum = false → c ≠ other := by
    rintro other hOther rfl
    rw [h] at hOther
    cases hOther
  have hComma : c ≠ ',' := hNe _ (by decide)
  have hBlank : c ≠ ' ' := hNe _ (by decide)
  have hTab : c ≠ '\t' := hNe _ (by decide)
  have hReturn : c ≠ '\r' := hNe _ (by decide)
  exact ⟨by simp [isSeparator, hComma, hBlank, hTab, hReturn], hNe _ (by decide),
    hNe _ (by decide), hNe _ (by decide)⟩

/-- A text that is read as one word. -/
def IsWord (word : List Char) : Prop := word ≠ [] ∧ ∀ c ∈ word, IsWordChar c

theorem isWordChar_of_all {text : List Char} (h : text.all (IsWordChar ·) = true) :
    ∀ c ∈ text, IsWordChar c := by
  simpa using h

instance : DecidablePred IsWord := fun word =>
  decidable_of_iff (word ≠ [] ∧ word.all (IsWordChar ·) = true) (by simp [IsWord])

/-- A line that is put together from words, with blanks and commas around them and a comment
at its end or none. -/
inductive Written : List Char → List (List Char) → Prop
  | done : Written [] []
  | comment {text : List Char} (h : ∀ c ∈ text, c ≠ '\n' ∧ c ≠ '\r') : Written ('#' :: text) []
  | blank {c : Char} {line : List Char} {texts : List (List Char)} (h : c = ' ' ∨ c = ',')
      (rest : Written line texts) : Written (c :: line) texts
  | word {word line : List Char} {texts : List (List Char)} (hWord : IsWord word)
      (hEnd : ∀ c ∈ line.head?, c = ' ' ∨ c = ',' ∨ c = '#') (rest : Written line texts) :
      Written (word ++ line) (word :: texts)

theorem Written.blanks {blanks line : List Char} {texts : List (List Char)}
    (h : ∀ c ∈ blanks, c = ' ' ∨ c = ',') (rest : Written line texts) :
    Written (blanks ++ line) texts := by
  induction blanks with
  | nil => exact rest
  | cons c cs ih =>
    exact .blank (h c List.mem_cons_self) (ih fun x hx => h x (List.mem_cons_of_mem c hx))

/-- Words with blanks and commas between them. -/
theorem Written.intercalate {separator line : List Char} {words texts : List (List Char)}
    (hSome : separator ≠ []) (hSeparator : ∀ c ∈ separator, c = ' ' ∨ c = ',')
    (hWords : ∀ word ∈ words, IsWord word)
    (hEnd : ∀ c ∈ line.head?, c = ' ' ∨ c = ',' ∨ c = '#') (rest : Written line texts) :
    Written (separator.intercalate words ++ line) (words ++ texts) := by
  induction words with
  | nil => exact rest
  | cons word more ih =>
    have hWord := hWords word List.mem_cons_self
    have hMore := ih fun other hMem => hWords other (List.mem_cons_of_mem word hMem)
    rcases more with _ | ⟨next, more⟩
    · rw [List.intercalate_singleton]
      exact .word hWord hEnd rest
    · rw [List.intercalate_cons_cons, List.append_assoc, List.append_assoc]
      refine .word hWord ?_ (.blanks hSeparator hMore)
      obtain ⟨c, cs, rfl⟩ := List.exists_cons_of_ne_nil hSome
      rintro d ⟨⟩
      rcases hSeparator c List.mem_cons_self with h | h
      · exact .inl h
      · exact .inr (.inl h)

/-- No end of a line is inside the line. -/
theorem Written.isLine {line : List Char} {texts : List (List Char)} (h : Written line texts) :
    IsLine line := by
  have hInside : ∀ c ∈ line, c ≠ '\n' ∧ c ≠ '\r' := by
    induction h with
    | done => simp
    | comment hText =>
      rintro c (_ | ⟨_, hMem⟩)
      · decide
      · exact hText c hMem
    | blank hBlank rest ih =>
      rintro c (_ | ⟨_, hMem⟩)
      · rcases hBlank with rfl | rfl <;> decide
      · exact ih c hMem
    | word hWord _ _ ih =>
      intro c hMem
      rcases List.mem_append.1 hMem with hMem | hMem
      · exact ⟨(hWord.2 c hMem).ne (by decide), (hWord.2 c hMem).ne (by decide)⟩
      · exact ih c hMem
  refine ⟨fun hMem => (hInside _ hMem).1 rfl, fun hLast => ?_⟩
  exact (hInside _ (List.mem_of_getLast? hLast)).2 rfl

/-! ## Reading -/

/-- A line that is read as these words, wherever it starts. -/
def Reads (line : List Char) (texts : List (List Char)) : Prop :=
  ∀ column, ∃ tokens, scan none column line = .ok tokens ∧ tokens.map Token.text = texts

theorem reads_nil : Reads [] [] := fun _ => ⟨[], rfl, rfl⟩

theorem reads_comment (text : List Char) : Reads ('#' :: text) [] :=
  fun _ => ⟨[], by simp [scan], rfl⟩

theorem Reads.separator {c : Char} {line : List Char} {texts : List (List Char)}
    (h : isSeparator c = true) (rest : Reads line texts) : Reads (c :: line) texts := by
  intro column
  obtain ⟨tokens, hScan, hTexts⟩ := rest (column + c.utf8Size)
  have hHash : c ≠ '#' := by
    rintro rfl
    cases h
  exact ⟨tokens, by rw [scan, if_neg hHash, if_pos h, hScan], hTexts⟩

theorem Reads.separators {separators line : List Char} {texts : List (List Char)}
    (h : ∀ c ∈ separators, isSeparator c = true) (rest : Reads line texts) :
    Reads (separators ++ line) texts := by
  induction separators with
  | nil => exact rest
  | cons c cs ih =>
    exact .separator (h c List.mem_cons_self) (ih fun x hx => h x (List.mem_cons_of_mem c hx))

/-- A word that is begun goes on with the characters of words. -/
theorem scan_append {word : List Char} (hWord : ∀ c ∈ word, IsWordChar c) (rest : List Char)
    {token : OpenToken} (hOpen : token.quoted = false) (column : Nat) :
    ∃ next, scan (some token) column (word ++ rest)
      = scan (some ⟨word.reverse ++ token.reversed, token.column, false⟩) next rest := by
  induction word generalizing token column with
  | nil =>
    refine ⟨column, ?_⟩
    rw [← hOpen]
    rfl
  | cons c cs ih =>
    obtain ⟨hSeparator, hHash, hQuote, -⟩ := hWord c List.mem_cons_self
    have hAdd : (token.add c).quoted = false := by
      simp [OpenToken.add, hQuote, hOpen]
    obtain ⟨next, hNext⟩ :=
      ih (fun x hx => hWord x (List.mem_cons_of_mem c hx)) hAdd (column + c.utf8Size)
    refine ⟨next, ?_⟩
    rw [List.cons_append, scan, if_neg (by rw [hOpen]; decide), if_neg hHash,
      if_neg (by rw [hSeparator]; decide), hNext, List.reverse_cons, List.append_assoc]
    rfl

/-- A word ends at the end of the line, at a separator, or at a comment. -/
theorem scan_end {rest : List Char} (hEnd : ∀ c ∈ rest.head?, isSeparator c = true ∨ c = '#')
    {token : OpenToken} (hOpen : token.quoted = false) {column : Nat} {tokens : List Token}
    (h : scan none column rest = .ok tokens) :
    scan (some token) column rest = .ok (token.close :: tokens) := by
  rcases rest with _ | ⟨c, more⟩
  · cases h
    simp [scan, hOpen]
  · by_cases hHash : c = '#'
    · subst hHash
      rw [scan, if_pos rfl] at h
      cases h
      simp [scan, hOpen]
    · have hSeparator : isSeparator c = true := (hEnd c rfl).resolve_right hHash
      rw [scan, if_neg hHash, if_pos hSeparator] at h
      rw [scan, if_neg (by rw [hOpen]; decide), if_neg hHash, if_pos hSeparator, h]
      rfl

theorem Reads.word {word line : List Char} {texts : List (List Char)} (hWord : IsWord word)
    (hEnd : ∀ c ∈ line.head?, isSeparator c = true ∨ c = '#') (rest : Reads line texts) :
    Reads (word ++ line) (word :: texts) := by
  intro column
  obtain ⟨hSome, hChars⟩ := hWord
  rcases word with _ | ⟨c, cs⟩
  · exact absurd rfl hSome
  · obtain ⟨hSeparator, hHash, hQuote, -⟩ := hChars c List.mem_cons_self
    have hStart : (OpenToken.start c column).quoted = false := by
      simp [OpenToken.start, hQuote]
    obtain ⟨next, hNext⟩ := scan_append (fun x hx => hChars x (List.mem_cons_of_mem c hx)) line
      hStart (column + c.utf8Size)
    have hFirst : scan none column (c :: cs ++ line)
        = scan (some ⟨cs.reverse ++ [c], column, false⟩) next line := by
      rw [List.cons_append, scan, if_neg hHash, if_neg (by rw [hSeparator]; decide), hNext]
      rfl
    obtain ⟨tokens, hScan, hTexts⟩ := rest next
    refine ⟨⟨c :: cs, column⟩ :: tokens, ?_, by rw [List.map_cons, hTexts]⟩
    have hClose : (⟨cs.reverse ++ [c], column, false⟩ : OpenToken).close
        = ⟨c :: cs, column⟩ := by
      simp [OpenToken.close]
    rw [hFirst, ← hClose]
    exact scan_end hEnd rfl hScan

/-- A line is read as the words that it was put together from. -/
theorem Written.reads {line : List Char} {texts : List (List Char)} (h : Written line texts) :
    Reads line texts := by
  induction h with
  | done => exact reads_nil
  | comment _ => exact reads_comment _
  | blank hBlank _ ih => exact .separator (by rcases hBlank with rfl | rfl <;> rfl) ih
  | word hWord hEnd _ ih =>
    refine .word hWord ?_ ih
    intro c hMem
    rcases hEnd c hMem with rfl | rfl | rfl
    · exact .inl rfl
    · exact .inl rfl
    · exact .inr rfl

end RegisterMachine.Assembly
