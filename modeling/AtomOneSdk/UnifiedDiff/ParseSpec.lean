import AtomOneSdk.UnifiedDiff.Format

/-!
Contract: a printed unified diff is parsed into its hunks.

Owns: the lines of a printed diff, its ranges and headers read back, and the hunks the
parser returns for it.

Does **not** own: the application of the hunks.
-/

namespace AtomOneSdk.UnifiedDiff

open List

/-! ## Lines -/

theorem not_mem_of_mem_splitOnP {p : Char → Bool} :
    ∀ (s : Text) (part : Text), part ∈ s.splitOnP p → ∀ c ∈ part, p c = false
  | [], part, member, c, inPart => by
    rw [splitOnP_nil, mem_singleton] at member
    rw [member] at inPart
    cases inPart
  | first :: rest, part, member, c, inPart => by
    rw [splitOnP_cons_eq_if_modifyHead] at member
    have tail := @not_mem_of_mem_splitOnP p rest
    split_ifs at member with isSep
    · rcases mem_cons.mp member with here | further
      · rw [here] at inPart
        cases inPart
      · exact tail part further c inPart
    · cases found : rest.splitOnP p with
      | nil => exact absurd found (splitOnP_ne_nil p rest)
      | cons head more =>
        rw [found, modifyHead_cons] at member
        rw [found] at tail
        rcases mem_cons.mp member with here | further
        · rw [here] at inPart
          rcases mem_cons.mp inPart with isFirst | later
          · rw [isFirst]
            simpa using isSep
          · exact tail head mem_cons_self c later
        · exact tail part (mem_cons_of_mem _ further) c inPart

def OneLine (line : Line) : Prop := '\n' ∉ line

theorem oneLine_of_split {src : Text} {line : Line} (member : line ∈ src.splitOn '\n') :
    OneLine line := by
  intro newline
  rw [splitOn_eq_splitOnP] at member
  have := not_mem_of_mem_splitOnP src line member '\n' newline
  simp at this

theorem flatMap_lines (lines : List Line) :
    (lines.flatMap fun line => line ++ ['\n']) = ['\n'].intercalate (lines ++ [[]]) := by
  induction lines with
  | nil => rfl
  | cons line rest ih =>
    rw [flatMap_cons, ih]
    cases rest with
    | nil => simp [List.intercalate]
    | cons next more =>
      exact intercalate_cons_cons.symm

/-- The lines of a text whose lines are not empty are read back. -/
theorem diffLines_lines {lines : List Line} (oneLine : ∀ line ∈ lines, OneLine line)
    (nonempty : ∀ line ∈ lines, line ≠ []) :
    diffLines (lines.flatMap fun line => line ++ ['\n']) = lines := by
  have split : ((['\n'].intercalate (lines ++ [[]])).splitOn '\n') = lines ++ [[]] := by
    apply splitOn_intercalate
    · intro line member
      rcases mem_append.mp member with inLines | isEmpty
      · exact oneLine line inLines
      · rw [mem_singleton.mp isEmpty]
        exact not_mem_nil
    · exact append_ne_nil_of_right_ne_nil _ (cons_ne_nil _ _)
  rw [diffLines, flatMap_lines, split, reverse_append, reverse_singleton,
    singleton_append, dropWhile_cons_of_pos (by rfl)]
  have stops : (lines.reverse.dropWhile fun line => line.isEmpty) = lines.reverse := by
    cases found : lines.reverse with
    | nil => rfl
    | cons last rest =>
      apply dropWhile_cons_of_neg
      have member : last ∈ lines := by
        rw [← mem_reverse, found]
        exact mem_cons_self
      simpa using nonempty last member
  rw [stops, reverse_reverse]

/-! ## Ranges -/

variable {c sign : Char} {pos span : Nat} {hunk : Located} {parsed : Parsed}

theorem isDigit_of_mem_decimal {n : Nat} (member : c ∈ decimal n) :
    c.isDigit = true :=
  Nat.isDigit_of_mem_toDigits (by decide) (by decide) member

theorem decimal_ne_nil (n : Nat) : decimal n ≠ [] := Nat.toDigits_ne_nil

theorem parseDigits_decimal (n : Nat) : parseDigits (decimal n) = some n := by
  have digits : (decimal n).all Char.isDigit = true := by
    rw [all_eq_true]
    exact fun c member => isDigit_of_mem_decimal member
  rw [parseDigits, if_pos ⟨decimal_ne_nil n, digits⟩]
  exact congrArg some (Nat.ofDigitChars_toDigits (by decide) (by decide))

theorem atoi_decimal {n : Nat} (fits : (n : Int) ≤ maxInt) : atoi (decimal n) = some (n : Int) := by
  have digits := parseDigits_decimal n
  have inRange : -maxInt - 1 ≤ (n : Int) ∧ (n : Int) ≤ maxInt := by
    refine ⟨?_, fits⟩
    have : (0 : Int) ≤ maxInt := by decide
    omega
  cases found : decimal n with
  | nil => exact absurd found (decimal_ne_nil n)
  | cons c rest =>
    have isDigit : c.isDigit = true :=
      isDigit_of_mem_decimal (by rw [found]; exact mem_cons_self)
    have notMinus : c ≠ '-' := fun same => by rw [same] at isDigit; cases isDigit
    have notPlus : c ≠ '+' := fun same => by rw [same] at isDigit; cases isDigit
    rw [found] at digits
    unfold atoi
    split
    next same => exact absurd (List.cons.inj same).1 notMinus
    next same => exact absurd (List.cons.inj same).1 notPlus
    next =>
      rw [digits]
      simp [Option.filter, inRange]

theorem comma_not_mem_decimal (n : Nat) : ',' ∉ decimal n := by
  intro member
  have := isDigit_of_mem_decimal member
  cases this

theorem splitOn_comma (first second : Nat) :
    (decimal first ++ ',' :: decimal second).splitOn ',' = [decimal first, decimal second] := by
  have apart : ∀ n, ∀ c ∈ decimal n, (c == ',') = false := by
    intro n c member
    rw [beq_eq_false_iff_ne]
    intro same
    rw [same] at member
    exact comma_not_mem_decimal n member
  rw [splitOn_eq_splitOnP,
    splitOnP_append_cons_of_forall_mem (apart first) ',' (by rfl),
    splitOnP_eq_singleton (apart second)]

theorem decrement_natCast (n : Nat) : decrement n = (n : Int) - 1 := by
  have limit : (0 : Int) ≤ maxInt := by decide
  rw [decrement, if_neg (by omega)]

/-- A printed range is read back, with its start moved to 0-based lines. -/
theorem parseHunkRange_printRange (isSign : sign = '-' ∨ sign = '+')
    (fits : (pos + span : Int) ≤ maxInt) :
    parseHunkRange (sign :: printRange pos span)
      = .ok ((rangeStart pos span : Int) - 1, (span : Int)) := by
  have startFits : (rangeStart pos span : Int) ≤ maxInt := by
    unfold rangeStart
    split_ifs with empty
    · omega
    · push_cast
      omega
  have spanFits : (span : Int) ≤ maxInt := by omega
  have signed : ¬ (sign ≠ '-' ∧ sign ≠ '+') := by
    rcases isSign with minus | plus
    · exact fun both => both.1 minus
    · exact fun both => both.2 plus
  have notNegative : ¬ (span : Int) < 0 := by omega
  rw [← decrement_natCast]
  simp only [parseHunkRange, lineAndSpan, if_neg signed]
  unfold printRange
  by_cases single : span = 1
  · have noComma : (decimal (rangeStart pos span)).contains ',' = false := by
      rw [contains_eq_mem]
      exact decide_eq_false (comma_not_mem_decimal _)
    rw [if_pos single, if_neg (by rw [noComma]; exact Bool.false_ne_true), atoi_decimal startFits]
    rw [single]
    rfl
  · have comma : (decimal (rangeStart pos span) ++ ',' :: decimal span).contains ',' = true := by
      rw [contains_eq_mem]
      exact decide_eq_true (mem_append_right _ mem_cons_self)
    rw [if_neg single, if_pos comma, splitOn_comma]
    simp only [atoi_decimal startFits, atoi_decimal spanFits, pure_bind, if_neg notNegative]
    rfl

/-! ## Headers -/

theorem mem_printRange (member : c ∈ printRange pos span) :
    c.isDigit = true ∨ c = ',' := by
  unfold printRange at member
  split_ifs at member
  · exact .inl (isDigit_of_mem_decimal member)
  · rcases mem_append.mp member with inStart | inSpan
    · exact .inl (isDigit_of_mem_decimal inStart)
    · rcases mem_cons.mp inSpan with isComma | inSpan
      · exact .inr isComma
      · exact .inl (isDigit_of_mem_decimal inSpan)

theorem isSpace_of_isDigit (digit : c.isDigit = true) : isSpace c = false := by
  have range : 48 ≤ c.toNat ∧ c.toNat ≤ 57 := by
    unfold Char.isDigit at digit
    rw [Bool.and_eq_true, decide_eq_true_eq, decide_eq_true_eq] at digit
    exact digit
  simp [isSpace]
  omega

theorem isSpace_of_mem_range (isSign : sign = '-' ∨ sign = '+')
    (member : c ∈ sign :: printRange pos span) : isSpace c = false := by
  rcases mem_cons.mp member with isFirst | inRange
  · rcases isSign with minus | plus
    · rw [isFirst, minus]
      rfl
    · rw [isFirst, plus]
      rfl
  · rcases mem_printRange inRange with digit | comma
    · exact isSpace_of_isDigit digit
    · rw [comma]
      rfl

theorem dropWhile_word {word : Text} (nonempty : word ≠ []) (solid : ∀ c ∈ word, isSpace c = false)
    (rest : Text) : (word ++ rest).dropWhile isSpace = word ++ rest := by
  cases word with
  | nil => exact absurd rfl nonempty
  | cons c word =>
    apply dropWhile_cons_of_neg
    rw [solid c mem_cons_self]
    exact Bool.false_ne_true

section Words

variable {first second : Text} (firstNonempty : first ≠ []) (secondNonempty : second ≠ [])
  (firstSolid : ∀ c ∈ first, isSpace c = false) (secondSolid : ∀ c ∈ second, isSpace c = false)

include firstNonempty secondNonempty firstSolid secondSolid

theorem trimSpace_words :
    trimSpace (' ' :: (first ++ ' ' :: second) ++ [' ']) = first ++ ' ' :: second := by
  have leading : (' ' :: (first ++ ' ' :: second) ++ [' ']).dropWhile isSpace
      = first ++ (' ' :: second ++ [' ']) := by
    rw [cons_append, dropWhile_cons_of_pos (by rfl), append_assoc,
      dropWhile_word firstNonempty firstSolid]
  have turned : (first ++ (' ' :: second ++ [' '])).reverse
      = ' ' :: (second.reverse ++ ' ' :: first.reverse) := by
    simp
  have trailing : (second.reverse ++ ' ' :: first.reverse).dropWhile isSpace
      = second.reverse ++ ' ' :: first.reverse := by
    apply dropWhile_word
    · exact fun empty => secondNonempty (reverse_eq_nil_iff.mp empty)
    · exact fun c member => secondSolid c (mem_reverse.mp member)
  rw [trimSpace, leading, turned, dropWhile_cons_of_pos (by rfl), trailing]
  simp

theorem fields_words : fields (first ++ ' ' :: second) = [first, second] := by
  rw [fields, splitOnP_append_cons_of_forall_mem firstSolid ' ' (by rfl),
    splitOnP_eq_singleton secondSolid]
  have firstKept : first.isEmpty = false := isEmpty_eq_false_iff.mpr firstNonempty
  have secondKept : second.isEmpty = false := isEmpty_eq_false_iff.mpr secondNonempty
  simp [List.filter, firstKept, secondKept]

end Words

theorem trimEnd_append (s ending : Text) : trimEnd (s ++ ending) ending = s := by
  have ends : startsWith (s ++ ending).reverse ending.reverse = true := by
    rw [startsWith, isPrefixOf_iff_prefix, reverse_append]
    exact prefix_append _ _
  rw [trimEnd, if_pos ends, length_append, Nat.add_sub_cancel, take_left]

def Located.toHunk (hunk : Located) : Hunk where
  srcLine := (rangeStart hunk.srcPos hunk.srcSpan : Int) - 1
  srcSpan := hunk.srcSpan
  dstLine := (rangeStart hunk.dstPos hunk.dstSpan : Int) - 1
  dstSpan := hunk.dstSpan
  lines := hunk.pieces.map Piece.print

/-- The line numbers of a hunk are values of an `int`. -/
def Located.Fits (hunk : Located) : Prop :=
  (hunk.srcPos + hunk.srcSpan : Int) ≤ maxInt ∧ (hunk.dstPos + hunk.dstSpan : Int) ≤ maxInt

theorem printHeader_eq (hunk : Located) :
    printHeader hunk = ['@', '@'] ++ ((' ' :: (('-' :: printRange hunk.srcPos hunk.srcSpan)
      ++ ' ' :: '+' :: printRange hunk.dstPos hunk.dstSpan) ++ [' ']) ++ ['@', '@']) := by
  simp [printHeader]

theorem parseHunkHeader_printHeader (fits : hunk.Fits) :
    parseHunkHeader (printHeader hunk) = .ok { hunk.toHunk with lines := [] } := by
  have started : ∀ rest : Text, trimStart (['@', '@'] ++ rest) ['@', '@'] = rest := by
    intro rest
    rfl
  have srcSolid : ∀ c ∈ '-' :: printRange hunk.srcPos hunk.srcSpan, isSpace c = false :=
    fun c member => isSpace_of_mem_range (.inl rfl) member
  have dstSolid : ∀ c ∈ '+' :: printRange hunk.dstPos hunk.dstSpan, isSpace c = false :=
    fun c member => isSpace_of_mem_range (.inr rfl) member
  rw [parseHunkHeader, printHeader_eq, started, trimEnd_append,
    trimSpace_words (cons_ne_nil _ _) (cons_ne_nil _ _) srcSolid dstSolid,
    fields_words (cons_ne_nil _ _) (cons_ne_nil _ _) srcSolid dstSolid]
  simp only [parseHunkRange_printRange (.inl rfl) fits.1,
    parseHunkRange_printRange (.inr rfl) fits.2]
  rfl

/-! ## Hunks -/

theorem countLines_print (pieces : List Piece) :
    countLines (pieces.map Piece.print)
      = .ok (((source pieces).length : Int), ((target pieces).length : Int)) := by
  induction pieces with
  | nil => rfl
  | cons piece rest ih =>
    cases piece with
    | keep line =>
      show (countLines (rest.map Piece.print) >>= fun n => pure (n.1 + 1, n.2 + 1)) = _
      rw [ih]
      simp [source, target, Piece.source, Piece.target]
    | delete line =>
      show (countLines (rest.map Piece.print) >>= fun n => pure (n.1 + 1, n.2)) = _
      rw [ih]
      simp [source, target, Piece.source, Piece.target]
    | insert line =>
      show (countLines (rest.map Piece.print) >>= fun n => pure (n.1, n.2 + 1)) = _
      rw [ih]
      simp [source, target, Piece.source, Piece.target]

theorem validateHunk_toHunk (hunk : Located) : validateHunk hunk.toHunk = .ok () := by
  have counted : countLines hunk.toHunk.lines = .ok (hunk.toHunk.srcSpan, hunk.toHunk.dstSpan) :=
    countLines_print hunk.pieces
  rw [validateHunk, counted]
  simp [bind, Except.bind, pure, Except.pure]

/-! ## The parser's loop -/

/-- The hunks of a parser's state, with the one being parsed. -/
def Parsed.all (parsed : Parsed) : List Hunk := parsed.hunks ++ parsed.hunk.toList

def Parsed.Complete (parsed : Parsed) : Prop := ∀ hunk ∈ parsed.hunk, validateHunk hunk = .ok ()

theorem startsWith_header (hunk : Located) : startsWith (printHeader hunk) ['@', '@'] = true := by
  rw [printHeader_eq]
  rfl

theorem parseLine_header (complete : parsed.Complete) (fits : hunk.Fits) (i : Nat) :
    parseLine parsed (printHeader hunk, i)
      = .ok ⟨parsed.all, some { hunk.toHunk with lines := [] }⟩ := by
  simp only [parseLine, startsWith_header, if_true, parseHunkHeader_printHeader fits]
  obtain ⟨hunks, current⟩ := parsed
  cases current with
  | none => simp [Parsed.all, Except.mapError, bind, Except.bind, pure, Except.pure]
  | some current =>
    have valid : validateHunk current = .ok () := complete current rfl
    simp [Parsed.all, valid, Except.mapError, bind, Except.bind, pure, Except.pure]

theorem parseLine_piece (hunks : List Hunk) (hunk : Hunk) (piece : Piece) (i : Nat) :
    parseLine ⟨hunks, some hunk⟩ (piece.print, i)
      = .ok ⟨hunks, some { hunk with lines := hunk.lines ++ [piece.print] }⟩ := by
  cases piece <;> rfl

theorem parseLine_pieces (hunks : List Hunk) (pieces : List Piece) :
    ∀ (hunk : Hunk) (i : Nat),
      ((pieces.map Piece.print).zipIdx i).foldlM parseLine ⟨hunks, some hunk⟩
        = .ok ⟨hunks, some { hunk with lines := hunk.lines ++ pieces.map Piece.print }⟩ := by
  induction pieces with
  | nil =>
    intro hunk i
    simp [pure, Except.pure]
  | cons piece rest ih =>
    intro hunk i
    rw [map_cons, zipIdx_cons, foldlM_cons, parseLine_piece]
    show List.foldlM parseLine _ _ = _
    rw [ih, append_assoc, singleton_append]

theorem parseLine_hunk (complete : parsed.Complete) (fits : hunk.Fits) (i : Nat) :
    ((printHunk hunk).zipIdx i).foldlM parseLine parsed = .ok ⟨parsed.all, some hunk.toHunk⟩ := by
  rw [printHunk, zipIdx_cons, foldlM_cons, parseLine_header complete fits]
  show List.foldlM parseLine _ _ = _
  rw [parseLine_pieces, nil_append]
  rfl

theorem parseLine_hunks (hunks : List Located) :
    ∀ {parsed : Parsed}, parsed.Complete → (∀ hunk ∈ hunks, hunk.Fits) → ∀ i : Nat,
      ∃ after : Parsed,
        ((hunks.flatMap printHunk).zipIdx i).foldlM parseLine parsed = .ok after
          ∧ after.Complete ∧ after.all = parsed.all ++ hunks.map Located.toHunk := by
  induction hunks with
  | nil =>
    intro parsed complete _ i
    exact ⟨parsed, rfl, complete, (append_nil _).symm⟩
  | cons hunk rest ih =>
    intro parsed complete fits i
    have opened : Parsed.Complete ⟨parsed.all, some hunk.toHunk⟩ := by
      intro current isCurrent
      cases isCurrent
      exact validateHunk_toHunk hunk
    obtain ⟨after, ran, completeAfter, allAfter⟩ :=
      ih opened (fun later member => fits later (mem_cons_of_mem _ member))
        (i + (printHunk hunk).length)
    refine ⟨after, ?_, completeAfter, ?_⟩
    · rw [flatMap_cons, zipIdx_append, foldlM_append,
        parseLine_hunk complete (fits hunk mem_cons_self)]
      exact ran
    · rw [allAfter]
      simp [Parsed.all]

/-- The names of the texts stand before the hunks. -/
theorem parseLine_names (names : Line × Line) (rest : List Line) :
    (((['-', '-', '-', ' '] ++ names.1) :: (['+', '+', '+', ' '] ++ names.2)
        :: rest).zipIdx).foldlM parseLine ⟨[], none⟩
      = (rest.zipIdx 2).foldlM parseLine ⟨[], none⟩ := by
  have first : parseLine ⟨[], none⟩ (['-', '-', '-', ' '] ++ names.1, 0) = .ok ⟨[], none⟩ := by
    simp [parseLine, startsWith, pure, Except.pure]
  have second : parseLine ⟨[], none⟩ (['+', '+', '+', ' '] ++ names.2, 1) = .ok ⟨[], none⟩ := by
    simp [parseLine, startsWith, pure, Except.pure]
  rw [zipIdx_cons, zipIdx_cons, foldlM_cons, first]
  show List.foldlM parseLine _ _ = _
  rw [foldlM_cons, second]
  rfl

/-! ## Printed diffs -/

def Piece.line : Piece → Line
  | .keep line => line
  | .delete line => line
  | .insert line => line

theorem Piece.print_oneLine {piece : Piece} (oneLine : OneLine piece.line) :
    OneLine piece.print := by
  cases piece <;>
  · intro newline
    rcases mem_cons.mp newline with isFirst | inLine
    · cases isFirst
    · exact oneLine inLine

theorem Piece.print_ne_nil (piece : Piece) : piece.print ≠ [] := by
  cases piece <;> exact cons_ne_nil _ _

theorem newline_not_mem_printRange (pos span : Nat) : '\n' ∉ printRange pos span := by
  intro member
  rcases mem_printRange member with digit | comma
  · cases digit
  · cases comma

theorem printHeader_oneLine (hunk : Located) : OneLine (printHeader hunk) := by
  intro newline
  simp [printHeader, newline_not_mem_printRange] at newline

section Printed

variable {names : Line × Line} {hunks : List Located}

theorem mem_printLines {line : Line} (member : line ∈ printLines names hunks) :
    line = ['-', '-', '-', ' '] ++ names.1 ∨ line = ['+', '+', '+', ' '] ++ names.2
      ∨ ∃ hunk ∈ hunks, line = printHeader hunk ∨ ∃ piece ∈ hunk.pieces, line = piece.print := by
  rcases mem_cons.mp member with isFirst | member
  · exact .inl isFirst
  rcases mem_cons.mp member with isSecond | member
  · exact .inr (.inl isSecond)
  obtain ⟨hunk, isHunk, inHunk⟩ := mem_flatMap.mp member
  refine .inr (.inr ⟨hunk, isHunk, ?_⟩)
  rcases mem_cons.mp inHunk with isHeader | isPiece
  · exact .inl isHeader
  · obtain ⟨piece, inPieces, printed⟩ := mem_map.mp isPiece
    exact .inr ⟨piece, inPieces, printed.symm⟩

variable (srcName : OneLine names.1) (dstName : OneLine names.2)
  (oneLine : ∀ hunk ∈ hunks, ∀ piece ∈ hunk.pieces, OneLine piece.line)

include srcName dstName oneLine in
theorem printLines_oneLine : ∀ line ∈ printLines names hunks, OneLine line := by
  intro line member
  rcases mem_printLines member with isFirst | isSecond | ⟨hunk, isHunk, isHeader | isPiece⟩
  · rw [isFirst]
    intro newline
    simp at newline
    exact srcName newline
  · rw [isSecond]
    intro newline
    simp at newline
    exact dstName newline
  · rw [isHeader]
    exact printHeader_oneLine hunk
  · obtain ⟨piece, inPieces, printed⟩ := isPiece
    rw [printed]
    exact Piece.print_oneLine (oneLine hunk isHunk piece inPieces)

theorem printLines_ne_nil : ∀ line ∈ printLines names hunks, line ≠ [] := by
  intro line member
  rcases mem_printLines member with isFirst | isSecond | ⟨hunk, _, isHeader | isPiece⟩
  · rw [isFirst]
    exact cons_ne_nil _ _
  · rw [isSecond]
    exact cons_ne_nil _ _
  · rw [isHeader, printHeader_eq]
    exact cons_ne_nil _ _
  · obtain ⟨piece, _, printed⟩ := isPiece
    rw [printed]
    exact piece.print_ne_nil

include srcName dstName oneLine in
/-- The hunks of a printed diff are read back; a diff without hunks is refused. -/
theorem parseUnifiedDiff_print (fits : ∀ hunk ∈ hunks, hunk.Fits) :
    parseUnifiedDiff ((printLines names hunks).flatMap fun line => line ++ ['\n'])
      = if hunks = [] then .error .noHunks else .ok (hunks.map Located.toHunk) := by
  have complete : Parsed.Complete ⟨[], none⟩ := by
    intro hunk isHunk
    cases isHunk
  obtain ⟨after, ran, completeAfter, allAfter⟩ := parseLine_hunks hunks complete fits 2
  have looped : (printLines names hunks).zipIdx.foldlM parseLine ⟨[], none⟩ = .ok after := by
    rw [printLines, parseLine_names]
    exact ran
  have found : after.all = hunks.map Located.toHunk := allAfter
  have empty : hunks = [] ↔ after.all = [] := by rw [found, map_eq_nil_iff]
  rw [parseUnifiedDiff,
    diffLines_lines (printLines_oneLine srcName dstName oneLine) printLines_ne_nil, looped]
  simp only [empty]
  rw [← found]
  obtain ⟨done, current⟩ := after
  cases current with
  | none =>
    simp only [Parsed.all, Option.toList_none, append_nil]
    by_cases none_ : done = []
    · rw [none_]
      rfl
    · simp [none_, bind, Except.bind, pure, Except.pure]
  | some current =>
    have valid : validateHunk current = .ok () := completeAfter current rfl
    simp [Parsed.all, valid, Except.mapError, bind, Except.bind, pure, Except.pure]

end Printed

end AtomOneSdk.UnifiedDiff
