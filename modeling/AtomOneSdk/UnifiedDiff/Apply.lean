import Mathlib.Tactic

/-!
Contract: unified diffs as the governance module parses and applies them.

Owns: the string functions it uses, the parser of hunks with its validation, and the
application of hunks to a source text.

Does **not** own: what a unified diff means, and who applies it to the constitution.
-/

namespace AtomOneSdk.UnifiedDiff

abbrev Line := List Char

abbrev Text := List Char

/-! ## Strings -/

/-- `unicode.IsSpace`. -/
def isSpace (c : Char) : Bool :=
  let r := c.toNat
  (9 ≤ r && r ≤ 13) || r = 32 || r = 0x85 || r = 0xA0 || r = 0x1680
    || (0x2000 ≤ r && r ≤ 0x200a) || r = 0x2028 || r = 0x2029 || r = 0x202f || r = 0x205f
    || r = 0x3000

def trimSpace (s : Text) : Text :=
  ((s.dropWhile isSpace).reverse.dropWhile isSpace).reverse

/-- `strings.Fields`. -/
def fields (s : Text) : List Text :=
  (s.splitOnP isSpace).filter fun part => !part.isEmpty

def startsWith (s start : Text) : Bool := start.isPrefixOf s

def trimStart (s start : Text) : Text :=
  if startsWith s start then s.drop start.length else s

def trimEnd (s ending : Text) : Text :=
  if startsWith s.reverse ending.reverse then s.take (s.length - ending.length) else s

/-- Largest value of an `int`. -/
def maxInt : Int := 2 ^ 63 - 1

/-- `line--`: the smallest `int` wraps around. -/
def decrement (line : Int) : Int := if line = -maxInt - 1 then maxInt else line - 1

/-- Decimal digits of `strconv.Atoi`. -/
def parseDigits (s : Text) : Option Nat :=
  if s ≠ [] ∧ s.all Char.isDigit = true then some (Nat.ofDigitChars 10 s 0) else none

/-- `strconv.Atoi`. -/
def atoi (s : Text) : Option Int :=
  let value : Option Int :=
    match s with
    | '-' :: rest => (parseDigits rest).map fun n => -(n : Int)
    | '+' :: rest => (parseDigits rest).map fun n => (n : Int)
    | _ => (parseDigits s).map fun n => (n : Int)
  value.filter fun n => -maxInt - 1 ≤ n ∧ n ≤ maxInt

/-! ## Parsing -/

structure Hunk where
  srcLine : Int
  srcSpan : Int
  dstLine : Int
  dstSpan : Int
  lines : List Line
deriving DecidableEq, Repr

inductive RangeError where
  | empty
  | invalidStart (c : Char)
  | invalidFormat
  | invalidLineNumber
  | invalidSpanNumber
  | negativeSpan
deriving DecidableEq, Repr

inductive HeaderError where
  | invalidFormat
  | source (reason : RangeError)
  | destination (reason : RangeError)
deriving DecidableEq, Repr

inductive HunkError where
  | invalidStart (c : Char)
  | sourceCount (count span : Int)
  | destinationCount (count span : Int)
deriving DecidableEq, Repr

/-- Line numbers in errors are 1-based. -/
inductive DiffError where
  | hunkHeader (line : Nat) (reason : HeaderError)
  | hunkEnding (line : Nat) (reason : HunkError)
  | lineStart (c : Char) (line : Nat)
  | outsideHunks (line : Nat)
  | lastHunk (reason : HunkError)
  | noHunks
  | hunkBeyondSource (line : Int) (length : Nat)
  | hunkOutOfOrder (line : Int) (processed : Nat)
  | sourceExceeded (index length : Nat)
  | contextExceeded (index length : Nat)
  | contextMismatch (line : Nat)
  | deletionExceeded (index length : Nat)
  | deletionMismatch (line : Nat)
  | controlCharacter (c : Char) (position : Nat)
  | invalidLine (line : Line)
deriving DecidableEq, Repr

/-- The line and the span of a range without its sign. -/
def lineAndSpan (rangeStr : Text) : Except RangeError (Int × Int) :=
  if rangeStr.contains ',' then
    match rangeStr.splitOn ',' with
    | [linePart, spanPart] =>
      match atoi linePart, atoi spanPart with
      | none, _ => throw .invalidLineNumber
      | some _, none => throw .invalidSpanNumber
      | some line, some span => pure (line, span)
    | _ => throw .invalidFormat
  else
    match atoi rangeStr with
    | none => throw .invalidLineNumber
    | some line => pure (line, 1)

/-- A range such as "-srcLine,srcSpan" or "+dstLine"; the line is 0-based. -/
def parseHunkRange (rangeStr : Text) : Except RangeError (Int × Int) :=
  match rangeStr with
  | [] => throw .empty
  | start :: rangeStr =>
    if start ≠ '-' ∧ start ≠ '+' then throw (.invalidStart start) else do
      let (line, span) ← lineAndSpan rangeStr
      if span < 0 then throw .negativeSpan else pure (decrement line, span)

def parseHunkHeader (header : Line) : Except HeaderError Hunk := do
  let header := trimSpace (trimEnd (trimStart header ['@', '@']) ['@', '@'])
  match fields header with
  | srcPart :: dstPart :: _ =>
    let (srcLine, srcSpan) ← (parseHunkRange srcPart).mapError .source
    let (dstLine, dstSpan) ← (parseHunkRange dstPart).mapError .destination
    pure ⟨srcLine, srcSpan, dstLine, dstSpan, []⟩
  | _ => throw .invalidFormat

/-- Counts of the source and destination lines of a hunk. -/
def countLines : List Line → Except HunkError (Int × Int)
  | [] => pure (0, 0)
  | [] :: rest => countLines rest
  | (' ' :: _) :: rest => do
    let (src, dst) ← countLines rest
    pure (src + 1, dst + 1)
  | ('-' :: _) :: rest => do
    let (src, dst) ← countLines rest
    pure (src + 1, dst)
  | ('+' :: _) :: rest => do
    let (src, dst) ← countLines rest
    pure (src, dst + 1)
  | (c :: _) :: _ => throw (.invalidStart c)

def validateHunk (hunk : Hunk) : Except HunkError Unit := do
  let (srcCount, dstCount) ← countLines hunk.lines
  if srcCount ≠ hunk.srcSpan then throw (.sourceCount srcCount hunk.srcSpan)
  if dstCount ≠ hunk.dstSpan then throw (.destinationCount dstCount hunk.dstSpan)

/-- The hunks parsed so far and the one being parsed. -/
structure Parsed where
  hunks : List Hunk
  hunk : Option Hunk
deriving DecidableEq, Repr

/-- One line of the diff; `i` is its 0-based number. -/
def parseLine (parsed : Parsed) (item : Line × Nat) : Except DiffError Parsed := do
  let (line, i) := item
  if startsWith line ['@', '@'] then
    let h ← (parseHunkHeader line).mapError (.hunkHeader (i + 1))
    match parsed.hunk with
    | none => pure { parsed with hunk := some h }
    | some hunk =>
      (validateHunk hunk).mapError (.hunkEnding i)
      pure ⟨parsed.hunks ++ [hunk], some h⟩
  else
    match parsed.hunk with
    | some hunk =>
      match line with
      | c :: _ => if c ≠ ' ' ∧ c ≠ '-' ∧ c ≠ '+' then throw (.lineStart c (i + 1))
      | [] => pure ()
      pure { parsed with hunk := some { hunk with lines := hunk.lines ++ [line] } }
    | none =>
      if trimSpace line ≠ [] ∧ startsWith line ['-', '-', '-'] = false
          ∧ startsWith line ['+', '+', '+'] = false then
        throw (.outsideHunks (i + 1))
      pure parsed

/-- The lines of a diff without trailing empty ones. -/
def diffLines (diffStr : Text) : List Line :=
  ((diffStr.splitOn '\n').reverse.dropWhile fun line => line.isEmpty).reverse

def parseUnifiedDiff (diffStr : Text) : Except DiffError (List Hunk) := do
  let parsed ← (diffLines diffStr).zipIdx.foldlM parseLine ⟨[], none⟩
  let hunks ←
    match parsed.hunk with
    | none => pure parsed.hunks
    | some hunk =>
      (validateHunk hunk).mapError .lastHunk
      pure (parsed.hunks ++ [hunk])
  if hunks.isEmpty then throw .noHunks
  pure hunks

/-! ## Application -/

/-- The first control character of a line, tabs apart, with its position. -/
def controlCharacter (line : Line) : Option (Char × Nat) :=
  line.zipIdx.find? fun item =>
    (item.1.toNat < 32 && item.1 ≠ '\t') || item.1.toNat = 0x7F

/-- Lines of the result and number of source lines used up. -/
structure Progress where
  result : List Line
  srcIndex : Nat
deriving DecidableEq, Repr

def copyLines (srcLines : List Line) : Nat → Progress → Except DiffError Progress
  | 0, progress => pure progress
  | count + 1, progress => do
    match srcLines[progress.srcIndex]? with
    | none => throw (.sourceExceeded progress.srcIndex srcLines.length)
    | some line =>
      copyLines srcLines count ⟨progress.result ++ [line], progress.srcIndex + 1⟩

def applyLine (srcLines : List Line) (progress : Progress) (line : Line) :
    Except DiffError Progress := do
  let srcIndex := progress.srcIndex
  match line with
  | [] => pure progress
  | ' ' :: content =>
    match srcLines[srcIndex]? with
    | none => throw (.contextExceeded srcIndex srcLines.length)
    | some source =>
      if source ≠ content then throw (.contextMismatch (srcIndex + 1))
      pure ⟨progress.result ++ [content], srcIndex + 1⟩
  | '-' :: content =>
    match srcLines[srcIndex]? with
    | none => throw (.deletionExceeded srcIndex srcLines.length)
    | some source =>
      if source ≠ content then throw (.deletionMismatch (srcIndex + 1))
      pure ⟨progress.result, srcIndex + 1⟩
  | '+' :: content =>
    match controlCharacter content with
    | some (c, position) => throw (.controlCharacter c position)
    | none => pure ⟨progress.result ++ [content], srcIndex⟩
  | _ => throw (.invalidLine line)

def applyHunk (srcLines : List Line) (progress : Progress) (hunk : Hunk) :
    Except DiffError Progress := do
  if (srcLines.length : Int) < hunk.srcLine then
    throw (.hunkBeyondSource (hunk.srcLine + 1) srcLines.length)
  if hunk.srcLine < progress.srcIndex then
    throw (.hunkOutOfOrder (hunk.srcLine + 1) progress.srcIndex)
  let progress ← copyLines srcLines (hunk.srcLine - progress.srcIndex).toNat progress
  hunk.lines.foldlM (applyLine srcLines) progress

def applyHunks (srcStr : Text) (hunks : List Hunk) : Except DiffError (List Line) := do
  let srcLines := srcStr.splitOn '\n'
  let progress ← hunks.foldlM (applyHunk srcLines) ⟨[], 0⟩
  pure (progress.result ++ srcLines.drop progress.srcIndex)

def applyUnifiedDiff (src diffStr : Text) : Except DiffError Text := do
  let hunks ← parseUnifiedDiff diffStr
  let resultLines ← applyHunks src hunks
  pure (['\n'].intercalate resultLines)

end AtomOneSdk.UnifiedDiff
