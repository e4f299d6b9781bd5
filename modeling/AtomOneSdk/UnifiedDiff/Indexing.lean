import AtomOneSdk.UnifiedDiff.Apply

/-!
Contract: no index or slice expression of the unified diff functions is out of range.

Owns: the same functions with every index and slice expression of the source written out,
each a panic when it is out of range, and their equality with the functions that match on
lists.

Does **not** own: what an accepted diff does.
-/

namespace AtomOneSdk.UnifiedDiff

open List

/-! ## Index expressions -/

/-- Why a function stops: it returns an error, or an index or slice is out of range. -/
inductive Stop (ε : Type) where
  | error (reason : ε)
  | outOfRange
deriving DecidableEq, Repr

/-- `xs[i]`. -/
def indexed {ε α : Type} (xs : List α) (i : Nat) : Except (Stop ε) α :=
  match xs[i]? with
  | none => throw .outOfRange
  | some x => pure x

/-- `xs[i:]`. -/
def slicedFrom {ε α : Type} (xs : List α) (i : Nat) : Except (Stop ε) (List α) :=
  if xs.length < i then throw .outOfRange else pure (xs.drop i)

/-- `xs[:i]`. -/
def slicedTo {ε α : Type} (xs : List α) (i : Nat) : Except (Stop ε) (List α) :=
  if xs.length < i then throw .outOfRange else pure (xs.take i)

/-- An outcome in which every index was in range. -/
def checked {ε α : Type} (outcome : Except ε α) : Except (Stop ε) α := outcome.mapError .error

/-- The reason of an error wrapped in another one. -/
def wrapped {ε δ α : Type} (wrap : ε → δ) : Except (Stop ε) α → Except (Stop δ) α
  | .ok value => .ok value
  | .error (.error reason) => .error (.error (wrap reason))
  | .error .outOfRange => .error .outOfRange

/-! ## The functions -/

def getAtoi (s : Text) (reason : RangeError) : Except (Stop RangeError) Int :=
  match atoi s with
  | none => throw (.error reason)
  | some n => pure n

def lineAndSpanGo (rangeStr : Text) : Except (Stop RangeError) (Int × Int) :=
  if rangeStr.contains ',' then do
    let parts := rangeStr.splitOn ','
    if parts.length ≠ 2 then throw (.error .invalidFormat) else do
      let linePart ← indexed parts 0
      let line ← getAtoi linePart .invalidLineNumber
      let spanPart ← indexed parts 1
      let span ← getAtoi spanPart .invalidSpanNumber
      pure (line, span)
  else do
    let line ← getAtoi rangeStr .invalidLineNumber
    pure (line, 1)

def parseHunkRangeGo (rangeStr : Text) : Except (Stop RangeError) (Int × Int) :=
  if rangeStr.length = 0 then throw (.error .empty) else do
    let start ← indexed rangeStr 0
    if start ≠ '-' ∧ start ≠ '+' then throw (.error (.invalidStart start)) else do
      let rangeStr ← slicedFrom rangeStr 1
      let (line, span) ← lineAndSpanGo rangeStr
      if span < 0 then throw (.error .negativeSpan) else pure (decrement line, span)

def parseHunkHeaderGo (header : Line) : Except (Stop HeaderError) Hunk := do
  let header := trimSpace (trimEnd (trimStart header ['@', '@']) ['@', '@'])
  let parts := fields header
  if parts.length < 2 then throw (.error .invalidFormat) else do
    let srcPart ← indexed parts 0
    let dstPart ← indexed parts 1
    let (srcLine, srcSpan) ← wrapped .source (parseHunkRangeGo srcPart)
    let (dstLine, dstSpan) ← wrapped .destination (parseHunkRangeGo dstPart)
    pure ⟨srcLine, srcSpan, dstLine, dstSpan, []⟩

/-- One turn of the loop that counts the lines of a hunk. -/
def countLineGo (counts : Int × Int) (line : Line) : Except (Stop HunkError) (Int × Int) :=
  if line.length = 0 then pure counts else do
    let start ← indexed line 0
    if start = ' ' then pure (counts.1 + 1, counts.2 + 1)
    else if start = '-' then pure (counts.1 + 1, counts.2)
    else if start = '+' then pure (counts.1, counts.2 + 1)
    else throw (.error (.invalidStart start))

def validateHunkGo (hunk : Hunk) : Except (Stop HunkError) Unit := do
  let (srcCount, dstCount) ← hunk.lines.foldlM countLineGo (0, 0)
  if srcCount ≠ hunk.srcSpan then throw (.error (.sourceCount srcCount hunk.srcSpan)) else
    if dstCount ≠ hunk.dstSpan then throw (.error (.destinationCount dstCount hunk.dstSpan))
    else pure ()

def withoutEmptyEndGo : Nat → List Line → Except (Stop DiffError) (List Line)
  | 0, diffLines => pure diffLines
  | count + 1, diffLines =>
    if diffLines.length = 0 then pure diffLines else do
      let last ← indexed diffLines (diffLines.length - 1)
      if last = [] then do
        let shorter ← slicedTo diffLines (diffLines.length - 1)
        withoutEmptyEndGo count shorter
      else pure diffLines

def parseContentGo (parsed : Parsed) (line : Line) (i : Nat) : Except (Stop DiffError) Parsed :=
  match parsed.hunk with
  | some hunk => do
    let next : Parsed := { parsed with hunk := some { hunk with lines := hunk.lines ++ [line] } }
    if 0 < line.length then do
      let start ← indexed line 0
      if start ≠ ' ' ∧ start ≠ '-' ∧ start ≠ '+' then throw (.error (.lineStart start (i + 1)))
      else pure next
    else pure next
  | none =>
    if trimSpace line ≠ [] ∧ startsWith line ['-', '-', '-'] = false
        ∧ startsWith line ['+', '+', '+'] = false then
      throw (.error (.outsideHunks (i + 1)))
    else pure parsed

def parseLineGo (diffLines : List Line) (parsed : Parsed) (i : Nat) :
    Except (Stop DiffError) Parsed := do
  let line ← indexed diffLines i
  if startsWith line ['@', '@'] then do
    let h ← wrapped (.hunkHeader (i + 1)) (parseHunkHeaderGo line)
    match parsed.hunk with
    | none => pure { parsed with hunk := some h }
    | some hunk => do
      wrapped (.hunkEnding i) (validateHunkGo hunk)
      pure ⟨parsed.hunks ++ [hunk], some h⟩
  else parseContentGo parsed line i

def lastHunkGo (parsed : Parsed) : Except (Stop DiffError) (List Hunk) :=
  match parsed.hunk with
  | none => pure parsed.hunks
  | some hunk => do
    wrapped .lastHunk (validateHunkGo hunk)
    pure (parsed.hunks ++ [hunk])

def parseUnifiedDiffGo (diffStr : Text) : Except (Stop DiffError) (List Hunk) := do
  let lines := diffStr.splitOn '\n'
  let diffLines ← withoutEmptyEndGo lines.length lines
  let parsed ← (List.range diffLines.length).foldlM (parseLineGo diffLines) ⟨[], none⟩
  let hunks ← lastHunkGo parsed
  if hunks.length = 0 then throw (.error .noHunks) else pure hunks

/-- The loop that copies unchanged lines, with the number of turns left. -/
def copyLinesGo (srcLines : List Line) : Nat → Progress → Except (Stop DiffError) Progress
  | 0, progress => pure progress
  | count + 1, progress =>
    if srcLines.length ≤ progress.srcIndex then
      throw (.error (.sourceExceeded progress.srcIndex srcLines.length))
    else do
      let line ← indexed srcLines progress.srcIndex
      copyLinesGo srcLines count ⟨progress.result ++ [line], progress.srcIndex + 1⟩

def applyLineGo (srcLines : List Line) (progress : Progress) (line : Line) :
    Except (Stop DiffError) Progress :=
  let srcIndex := progress.srcIndex
  if line.length = 0 then pure progress else do
    let start ← indexed line 0
    let content ← slicedFrom line 1
    if start = ' ' then
      if srcLines.length ≤ srcIndex then
        throw (.error (.contextExceeded srcIndex srcLines.length))
      else do
        let source ← indexed srcLines srcIndex
        if source ≠ content then throw (.error (.contextMismatch (srcIndex + 1)))
        else pure ⟨progress.result ++ [content], srcIndex + 1⟩
    else if start = '-' then
      if srcLines.length ≤ srcIndex then
        throw (.error (.deletionExceeded srcIndex srcLines.length))
      else do
        let source ← indexed srcLines srcIndex
        if source ≠ content then throw (.error (.deletionMismatch (srcIndex + 1)))
        else pure ⟨progress.result, srcIndex + 1⟩
    else if start = '+' then
      match controlCharacter content with
      | some (c, position) => throw (.error (.controlCharacter c position))
      | none => pure ⟨progress.result ++ [content], srcIndex⟩
    else throw (.error (.invalidLine line))

def applyHunkGo (srcLines : List Line) (progress : Progress) (hunk : Hunk) :
    Except (Stop DiffError) Progress :=
  if (srcLines.length : Int) < hunk.srcLine then
    throw (.error (.hunkBeyondSource (hunk.srcLine + 1) srcLines.length))
  else if hunk.srcLine < progress.srcIndex then
    throw (.error (.hunkOutOfOrder (hunk.srcLine + 1) progress.srcIndex))
  else do
    let progress ← copyLinesGo srcLines (hunk.srcLine - progress.srcIndex).toNat progress
    hunk.lines.foldlM (applyLineGo srcLines) progress

/-- The loop that adds the remaining lines, with the number of turns left. -/
def remainingLinesGo (srcLines : List Line) : Nat → Progress → Except (Stop DiffError) (List Line)
  | 0, progress => pure progress.result
  | count + 1, progress => do
    let line ← indexed srcLines progress.srcIndex
    remainingLinesGo srcLines count ⟨progress.result ++ [line], progress.srcIndex + 1⟩

def applyHunksGo (srcStr : Text) (hunks : List Hunk) : Except (Stop DiffError) (List Line) := do
  let srcLines := srcStr.splitOn '\n'
  let progress ← hunks.foldlM (applyHunkGo srcLines) ⟨[], 0⟩
  remainingLinesGo srcLines (srcLines.length - progress.srcIndex) progress

def applyUnifiedDiffGo (src diffStr : Text) : Except (Stop DiffError) Text := do
  let hunks ← parseUnifiedDiffGo diffStr
  let resultLines ← applyHunksGo src hunks
  pure (['\n'].intercalate resultLines)

/-! ## Equality -/

section Checked

variable {ε δ α β γ : Type}

@[simp] theorem indexed_zero (x : α) (xs : List α) :
    (indexed (x :: xs) 0 : Except (Stop ε) α) = .ok x := rfl

@[simp] theorem indexed_one (x y : α) (xs : List α) :
    (indexed (x :: y :: xs) 1 : Except (Stop ε) α) = .ok y := rfl

theorem indexed_of_lt {xs : List α} {i : Nat} (inside : i < xs.length) :
    (indexed xs i : Except (Stop ε) α) = .ok xs[i] := by
  rw [indexed, getElem?_eq_getElem inside]
  rfl

@[simp] theorem slicedFrom_one (x : α) (xs : List α) :
    (slicedFrom (x :: xs) 1 : Except (Stop ε) (List α)) = .ok xs := by
  rw [slicedFrom, if_neg (by rw [length_cons]; omega)]
  rfl

@[simp] theorem checked_ok (value : α) : checked (.ok value : Except ε α) = .ok value := rfl

@[simp] theorem checked_error (reason : ε) :
    checked (.error reason : Except ε α) = .error (.error reason) := rfl

theorem ok_bind (value : α) (next : α → Except ε β) :
    ((.ok value : Except ε α) >>= next) = next value := rfl

theorem checked_bind (outcome : Except ε α) (next : α → Except ε β) :
    checked (outcome >>= next) = checked outcome >>= fun value => checked (next value) := by
  cases outcome <;> rfl

@[simp] theorem wrapped_checked (wrap : ε → δ) (outcome : Except ε α) :
    wrapped wrap (checked outcome) = checked (outcome.mapError wrap) := by
  cases outcome <;> rfl

/-- A loop is in range if each of its turns is. -/
theorem foldlM_checked {turn : β → γ → Except ε β} {turnGo : β → γ → Except (Stop ε) β}
    (turns : ∀ state item, turnGo state item = checked (turn state item)) :
    ∀ (items : List γ) (state : β),
      items.foldlM turnGo state = checked (items.foldlM turn state) := by
  intro items
  induction items with
  | nil =>
    intro state
    rfl
  | cons item items rest =>
    intro state
    rw [foldlM_cons, foldlM_cons, turns, checked_bind]
    congr 1
    exact funext rest

end Checked

theorem lineAndSpanGo_eq (rangeStr : Text) :
    lineAndSpanGo rangeStr = checked (lineAndSpan rangeStr) := by
  unfold lineAndSpanGo lineAndSpan
  split_ifs with comma
  · generalize rangeStr.splitOn ',' = parts
    match parts with
    | [] => rfl
    | [_] => rfl
    | _ :: _ :: _ :: _ => rfl
    | [linePart, spanPart] =>
      rw [if_neg (by simp)]
      simp only [indexed_zero, indexed_one, getAtoi, ok_bind]
      cases atoi linePart with
      | none => rfl
      | some line => cases atoi spanPart <;> rfl
  · simp only [getAtoi]
    cases atoi rangeStr <;> rfl

theorem parseHunkRangeGo_eq (rangeStr : Text) :
    parseHunkRangeGo rangeStr = checked (parseHunkRange rangeStr) := by
  cases rangeStr with
  | nil => rfl
  | cons start rest =>
    rw [parseHunkRangeGo, if_neg (by simp), indexed_zero, ok_bind, slicedFrom_one, ok_bind,
      lineAndSpanGo_eq, parseHunkRange]
    split_ifs with invalid
    · rfl
    · rw [checked_bind]
      congr 1
      funext parsed
      show (if parsed.2 < 0 then _ else _) = checked (if parsed.2 < 0 then _ else _)
      split_ifs <;> rfl

theorem parseHunkHeaderGo_eq (header : Line) :
    parseHunkHeaderGo header = checked (parseHunkHeader header) := by
  unfold parseHunkHeaderGo parseHunkHeader
  simp only [parseHunkRangeGo_eq, wrapped_checked]
  generalize fields (trimSpace (trimEnd (trimStart header ['@', '@']) ['@', '@'])) = parts
  match parts with
  | [] => rfl
  | [_] => rfl
  | srcPart :: dstPart :: _ =>
    rw [if_neg (by simp), indexed_zero, indexed_one, ok_bind, ok_bind]
    simp only [checked_bind]
    rfl

/-- The loop adds to its counters what the recursion counts in the rest of the lines. -/
theorem countLineGo_eq (lines : List Line) : ∀ counts : Int × Int,
    lines.foldlM countLineGo counts
      = checked ((countLines lines).map fun found => (counts.1 + found.1, counts.2 + found.2)) := by
  induction lines with
  | nil =>
    intro counts
    show _ = Except.ok (counts.1 + 0, counts.2 + 0)
    rw [add_zero, add_zero]
    rfl
  | cons line lines rest =>
    intro counts
    rw [foldlM_cons]
    match line with
    | [] => exact rest counts
    | c :: content =>
      rw [countLineGo, if_neg (by simp), indexed_zero, ok_bind]
      split_ifs with context deletion insertion
      · subst context
        rw [countLines]
        show lines.foldlM countLineGo _ = _
        rw [rest]
        cases countLines lines with
        | error reason => rfl
        | ok found =>
          show Except.ok (counts.1 + 1 + found.1, counts.2 + 1 + found.2)
            = Except.ok (counts.1 + (found.1 + 1), counts.2 + (found.2 + 1))
          rw [add_assoc, add_assoc, add_comm 1, add_comm 1]
      · subst deletion
        rw [countLines]
        show lines.foldlM countLineGo _ = _
        rw [rest]
        cases countLines lines with
        | error reason => rfl
        | ok found =>
          show Except.ok (counts.1 + 1 + found.1, counts.2 + found.2)
            = Except.ok (counts.1 + (found.1 + 1), counts.2 + found.2)
          rw [add_assoc, add_comm 1]
      · subst insertion
        rw [countLines]
        show lines.foldlM countLineGo _ = _
        rw [rest]
        cases countLines lines with
        | error reason => rfl
        | ok found =>
          show Except.ok (counts.1 + found.1, counts.2 + 1 + found.2)
            = Except.ok (counts.1 + found.1, counts.2 + (found.2 + 1))
          rw [add_assoc, add_comm 1]
      · rw [countLines] <;> first | assumption | rfl

theorem validateHunkGo_eq (hunk : Hunk) : validateHunkGo hunk = checked (validateHunk hunk) := by
  unfold validateHunkGo validateHunk
  rw [countLineGo_eq]
  cases countLines hunk.lines with
  | error reason => rfl
  | ok counts =>
    simp only [Except.map, zero_add, checked_ok, ok_bind]
    by_cases source : counts.1 ≠ hunk.srcSpan
    · rw [if_pos source, if_pos source]
      rfl
    · rw [if_neg source, if_neg source]
      split_ifs <;> rfl

theorem withoutEmptyEndGo_eq (backwards : List Line) :
    withoutEmptyEndGo backwards.length backwards.reverse
      = .ok (backwards.dropWhile fun line => line.isEmpty).reverse := by
  induction backwards with
  | nil => rfl
  | cons last before shorter =>
    have lengths : (last :: before).reverse.length = before.length + 1 := by
      rw [length_reverse, length_cons]
    have isLast : (indexed (last :: before).reverse before.length : Except (Stop DiffError) Line)
        = .ok last := by
      rw [indexed_of_lt (by omega), getElem_reverse]
      simp
    rw [length_cons, withoutEmptyEndGo, lengths, if_neg (by omega), Nat.add_sub_cancel,
      isLast, ok_bind]
    by_cases empty : last = []
    · have isShorter : (slicedTo (last :: before).reverse before.length
          : Except (Stop DiffError) (List Line)) = .ok before.reverse := by
        rw [slicedTo, if_neg (by omega), reverse_cons,
          take_left' (length_reverse)]
        rfl
      rw [if_pos empty, isShorter, ok_bind, shorter, empty]
      rfl
    · have kept : last.isEmpty = false := by rw [isEmpty_eq_false_iff]; exact empty
      rw [if_neg empty, dropWhile_cons, kept]
      rfl

theorem parseContentGo_eq (parsed : Parsed) {line : Line} (i : Nat)
    (content : startsWith line ['@', '@'] = false) :
    parseContentGo parsed line i = checked (parseLine parsed (line, i)) := by
  unfold parseContentGo parseLine
  simp only [content, Bool.false_eq_true, if_false]
  cases parsed.hunk with
  | none =>
    dsimp only
    split_ifs <;> rfl
  | some hunk =>
    cases line with
    | nil => rfl
    | cons c rest =>
      dsimp only
      rw [if_pos (by simp), indexed_zero, ok_bind]
      split_ifs <;> rfl

/-- One turn of the loop over the lines of the diff. -/
theorem parseLineGo_eq {diffLines : List Line} {line : Line} {i : Nat}
    (here : diffLines[i]? = some line) (parsed : Parsed) :
    parseLineGo diffLines parsed i = checked (parseLine parsed (line, i)) := by
  have isLine : (indexed diffLines i : Except (Stop DiffError) Line) = .ok line := by
    rw [indexed, here]
    rfl
  rw [parseLineGo, isLine, ok_bind]
  by_cases header : startsWith line ['@', '@'] = true
  · rw [if_pos header, parseHunkHeaderGo_eq, wrapped_checked]
    unfold parseLine
    simp only [header, if_true, checked_bind]
    congr 1
    funext h
    cases parsed.hunk with
    | none => rfl
    | some hunk =>
      dsimp only
      rw [validateHunkGo_eq, wrapped_checked, checked_bind]
      rfl
  · rw [if_neg header, parseContentGo_eq parsed i (Bool.eq_false_iff.mpr header)]

theorem parseLinesGo_eq (rest : List Line) : ∀ {diffLines before : List Line},
    diffLines = before ++ rest → ∀ parsed : Parsed,
    (List.range' before.length rest.length).foldlM (parseLineGo diffLines) parsed
      = checked ((rest.zipIdx before.length).foldlM parseLine parsed) := by
  induction rest with
  | nil =>
    intro diffLines before _ parsed
    rfl
  | cons line rest later =>
    intro diffLines before split parsed
    have here : diffLines[before.length]? = some line := by
      rw [split, getElem?_append_right (le_refl _), Nat.sub_self]
      rfl
    have next : diffLines = (before ++ [line]) ++ rest := by
      rw [split, append_assoc]
      rfl
    have lengths : (before ++ [line]).length = before.length + 1 := length_append
    rw [length_cons, range'_succ, foldlM_cons, parseLineGo_eq here,
      zipIdx_cons, foldlM_cons, checked_bind]
    congr 1
    funext following
    have rested := later next following
    rw [lengths] at rested
    exact rested

theorem lastHunkGo_eq (parsed : Parsed) :
    lastHunkGo parsed = checked (
      match parsed.hunk with
      | none => pure parsed.hunks
      | some hunk => do
        (validateHunk hunk).mapError .lastHunk
        pure (parsed.hunks ++ [hunk])) := by
  unfold lastHunkGo
  cases parsed.hunk with
  | none => rfl
  | some hunk =>
    dsimp only
    rw [validateHunkGo_eq, wrapped_checked, checked_bind]
    rfl

theorem parseUnifiedDiffGo_eq (diffStr : Text) :
    parseUnifiedDiffGo diffStr = checked (parseUnifiedDiff diffStr) := by
  have trimmed : withoutEmptyEndGo (diffStr.splitOn '\n').length (diffStr.splitOn '\n')
      = .ok (diffLines diffStr) := by
    have backwards := withoutEmptyEndGo_eq (diffStr.splitOn '\n').reverse
    rw [length_reverse, reverse_reverse] at backwards
    exact backwards
  have loop := parseLinesGo_eq (diffLines diffStr) (nil_append _).symm ⟨[], none⟩
  rw [length_nil] at loop
  unfold parseUnifiedDiffGo parseUnifiedDiff
  dsimp only
  rw [trimmed, ok_bind, range_eq_range', loop, checked_bind]
  congr 1
  funext parsed
  rw [lastHunkGo_eq]
  cases parsed.hunk with
  | none =>
    simp only [pure_bind]
    cases parsed.hunks <;> rfl
  | some hunk =>
    dsimp only
    cases validateHunk hunk with
    | error reason => rfl
    | ok done =>
      show (if (parsed.hunks ++ [hunk]).length = 0 then _ else _)
        = checked (if (parsed.hunks ++ [hunk]).isEmpty = true then _ else _)
      rw [if_neg (by simp), if_neg (by simp)]
      rfl

theorem copyLinesGo_eq (srcLines : List Line) (count : Nat) : ∀ progress : Progress,
    copyLinesGo srcLines count progress = checked (copyLines srcLines count progress) := by
  induction count with
  | zero =>
    intro progress
    rfl
  | succ count rest =>
    intro progress
    rw [copyLinesGo, copyLines]
    by_cases beyond : srcLines.length ≤ progress.srcIndex
    · rw [if_pos beyond, getElem?_eq_none beyond]
      rfl
    · rw [if_neg beyond, indexed_of_lt (not_le.mp beyond), ok_bind, rest,
        getElem?_eq_getElem (not_le.mp beyond)]

theorem applyLine_context (srcLines : List Line) (progress : Progress) (content : Line) :
    applyLine srcLines progress (' ' :: content)
      = match srcLines[progress.srcIndex]? with
        | none => .error (.contextExceeded progress.srcIndex srcLines.length)
        | some source =>
          if source ≠ content then .error (.contextMismatch (progress.srcIndex + 1))
          else .ok ⟨progress.result ++ [content], progress.srcIndex + 1⟩ := rfl

theorem applyLine_deletion (srcLines : List Line) (progress : Progress) (content : Line) :
    applyLine srcLines progress ('-' :: content)
      = match srcLines[progress.srcIndex]? with
        | none => .error (.deletionExceeded progress.srcIndex srcLines.length)
        | some source =>
          if source ≠ content then .error (.deletionMismatch (progress.srcIndex + 1))
          else .ok ⟨progress.result, progress.srcIndex + 1⟩ := rfl

theorem applyLine_insertion (srcLines : List Line) (progress : Progress) (content : Line) :
    applyLine srcLines progress ('+' :: content)
      = match controlCharacter content with
        | some (c, position) => .error (.controlCharacter c position)
        | none => .ok ⟨progress.result ++ [content], progress.srcIndex⟩ := rfl

theorem applyLine_other {srcLines : List Line} {progress : Progress} {c : Char} {content : Line}
    (noContext : c ≠ ' ') (noDeletion : c ≠ '-') (noInsertion : c ≠ '+') :
    applyLine srcLines progress (c :: content) = .error (.invalidLine (c :: content)) := by
  unfold applyLine
  split <;> simp_all
  rfl

theorem applyLineGo_eq (srcLines : List Line) (progress : Progress) (line : Line) :
    applyLineGo srcLines progress line = checked (applyLine srcLines progress line) := by
  cases line with
  | nil => rfl
  | cons c content =>
    unfold applyLineGo
    rw [if_neg (by simp), indexed_zero, ok_bind, slicedFrom_one, ok_bind]
    split_ifs with context beyond deletion beyond' insertion
    · rw [context, applyLine_context, getElem?_eq_none beyond]
      rfl
    · rw [context, applyLine_context, indexed_of_lt (not_le.mp beyond), ok_bind,
        getElem?_eq_getElem (not_le.mp beyond)]
      dsimp only
      split_ifs <;> rfl
    · rw [deletion, applyLine_deletion, getElem?_eq_none beyond']
      rfl
    · rw [deletion, applyLine_deletion, indexed_of_lt (not_le.mp beyond'), ok_bind,
        getElem?_eq_getElem (not_le.mp beyond')]
      dsimp only
      split_ifs <;> rfl
    · subst insertion
      rw [applyLine_insertion]
      cases controlCharacter content <;> rfl
    · rw [applyLine_other context deletion insertion]
      rfl

theorem applyHunkGo_eq (srcLines : List Line) (progress : Progress) (hunk : Hunk) :
    applyHunkGo srcLines progress hunk = checked (applyHunk srcLines progress hunk) := by
  unfold applyHunkGo applyHunk
  dsimp only
  by_cases beyond : (srcLines.length : Int) < hunk.srcLine
  · rw [if_pos beyond, if_pos beyond]
    rfl
  · rw [if_neg beyond, if_neg beyond]
    by_cases order : hunk.srcLine < progress.srcIndex
    · rw [if_pos order, if_pos order]
      rfl
    · rw [if_neg order, if_neg order, copyLinesGo_eq, checked_bind]
      congr 1
      funext copied
      exact foldlM_checked (applyLineGo_eq srcLines) _ _

theorem remainingLinesGo_eq (srcLines : List Line) (count : Nat) : ∀ progress : Progress,
    progress.srcIndex + count = srcLines.length ∨ count = 0 ∧ srcLines.length ≤ progress.srcIndex →
    remainingLinesGo srcLines count progress
      = .ok (progress.result ++ srcLines.drop progress.srcIndex) := by
  induction count with
  | zero =>
    intro progress all
    rw [drop_eq_nil_of_le (by omega), append_nil]
    rfl
  | succ count rest =>
    intro progress all
    have inside : progress.srcIndex < srcLines.length := by omega
    rw [remainingLinesGo, indexed_of_lt inside, ok_bind, rest _ (by dsimp only; omega),
      drop_eq_getElem_cons inside, append_assoc, singleton_append]

theorem applyHunksGo_eq (srcStr : Text) (hunks : List Hunk) :
    applyHunksGo srcStr hunks = checked (applyHunks srcStr hunks) := by
  unfold applyHunksGo applyHunks
  dsimp only
  rw [foldlM_checked (applyHunkGo_eq _), checked_bind]
  congr 1
  funext progress
  exact remainingLinesGo_eq _ _ progress (by omega)

/-- Every index and slice expression is in range, for every source text and diff. -/
theorem applyUnifiedDiffGo_eq (src diffStr : Text) :
    applyUnifiedDiffGo src diffStr = checked (applyUnifiedDiff src diffStr) := by
  unfold applyUnifiedDiffGo applyUnifiedDiff
  rw [parseUnifiedDiffGo_eq, checked_bind]
  congr 1
  funext hunks
  rw [applyHunksGo_eq, checked_bind]
  rfl

end AtomOneSdk.UnifiedDiff
