import AtomOneSdk.UnifiedDiff.Apply

/-!
Contract: the unified diff of an edit, as POSIX and GNU define it.

Owns: line edits and the text they produce, the script of kept, deleted and inserted lines
of an edit, the hunks of a script for a choice of context lines, and their printed form:
1-based start lines, and for a range without lines the number of the line before it.

Does **not** own: how a diff is parsed.
-/

namespace AtomOneSdk.UnifiedDiff

open List

/-! ## Edits -/

/-- Replace `deleted` lines from the 0-based line `start` on by other lines. The edits of a
list are in order and apart. -/
structure Edit where
  start : Nat
  deleted : Nat
  inserted : List Line
deriving DecidableEq, Repr

/-- The edited lines, from line `pos` on. -/
def editLines : Nat → List Line → List Edit → List Line
  | _, lines, [] => lines
  | pos, lines, edit :: rest =>
    lines.take (edit.start - pos) ++ edit.inserted
      ++ editLines (edit.start + edit.deleted) (lines.drop (edit.start - pos + edit.deleted)) rest

def editText (src : Text) (edits : List Edit) : Text :=
  ['\n'].intercalate (editLines 0 (src.splitOn '\n') edits)

/-! ## Scripts -/

inductive Piece where
  | keep (line : Line)
  | delete (line : Line)
  | insert (line : Line)
deriving DecidableEq, Repr

def Piece.isChange : Piece → Bool
  | .keep _ => false
  | _ => true

def Piece.source : Piece → List Line
  | .keep line => [line]
  | .delete line => [line]
  | .insert _ => []

def Piece.target : Piece → List Line
  | .keep line => [line]
  | .delete _ => []
  | .insert line => [line]

def source (pieces : List Piece) : List Line := pieces.flatMap Piece.source

def target (pieces : List Piece) : List Line := pieces.flatMap Piece.target

def script : Nat → List Line → List Edit → List Piece
  | _, lines, [] => lines.map .keep
  | pos, lines, edit :: rest =>
    let here := lines.drop (edit.start - pos)
    (lines.take (edit.start - pos)).map .keep ++ (here.take edit.deleted).map .delete
      ++ edit.inserted.map .insert
      ++ script (edit.start + edit.deleted) (here.drop edit.deleted) rest

/-! ## Hunks -/

/-- Kept lines that a diff does not show, and the pieces of the hunk behind them. -/
structure Block where
  gap : List Line
  pieces : List Piece
deriving DecidableEq, Repr

/-- The hunks of a diff with the lines before them, and the lines behind the last one. -/
structure Layout where
  blocks : List Block
  tail : List Line
deriving DecidableEq, Repr

/-- A kept line is put before the first hunk. -/
def Layout.hide (line : Line) : Layout → Layout
  | ⟨[], tail⟩ => ⟨[], line :: tail⟩
  | ⟨block :: later, tail⟩ => ⟨⟨line :: block.gap, block.pieces⟩ :: later, tail⟩

/-- A piece is shown: in the first hunk if that starts right behind it. -/
def Layout.reveal (piece : Piece) : Layout → Layout
  | ⟨⟨[], pieces⟩ :: later, tail⟩ => ⟨⟨[], piece :: pieces⟩ :: later, tail⟩
  | ⟨blocks, tail⟩ => ⟨⟨[], [piece]⟩ :: blocks, tail⟩

/-- A diff shows every change, and of the kept lines those that `context` picks by their
place in the script. -/
def layout (context : Nat → Bool) : Nat → List Piece → Layout
  | _, [] => ⟨[], []⟩
  | i, .keep line :: rest =>
    if context i then (layout context (i + 1) rest).reveal (.keep line)
    else (layout context (i + 1) rest).hide line
  | i, piece :: rest => (layout context (i + 1) rest).reveal piece

/-- The kept lines at most `count` lines before or behind a change. The empty string behind a
final newline is no line. -/
def linesOfContext (count : Nat) (pieces : List Piece) (i : Nat) : Bool :=
  pieces.drop i != [.keep []] && pieces.zipIdx.any fun item =>
    item.1.isChange && decide (i ≤ item.2 + count) && decide (item.2 ≤ i + count)

/-- The pieces of a hunk, with the number of source and destination lines before it. -/
structure Located where
  srcPos : Nat
  dstPos : Nat
  pieces : List Piece
deriving DecidableEq, Repr

def Located.srcSpan (hunk : Located) : Nat := (source hunk.pieces).length

def Located.dstSpan (hunk : Located) : Nat := (target hunk.pieces).length

def locate : Nat → Nat → List Block → List Located
  | _, _, [] => []
  | srcPos, dstPos, block :: later =>
    let srcHere := srcPos + block.gap.length
    let dstHere := dstPos + block.gap.length
    ⟨srcHere, dstHere, block.pieces⟩ :: locate (srcHere + (source block.pieces).length)
      (dstHere + (target block.pieces).length) later

/-- The hunks of the unified diff of an edit. -/
def hunksOf (context : Nat → Bool) (lines : List Line) (edits : List Edit) : List Located :=
  locate 0 0 (layout context 0 (script 0 lines edits)).blocks

/-! ## Printed form -/

def decimal (n : Nat) : Text := Nat.toDigits 10 n

/-- Start line of a range: the first line, or the line before a range without lines. -/
def rangeStart (pos span : Nat) : Nat := if span = 0 then pos else pos + 1

/-- The span is left out when it is 1. -/
def printRange (pos span : Nat) : Text :=
  if span = 1 then decimal (rangeStart pos span)
  else decimal (rangeStart pos span) ++ ',' :: decimal span

def printHeader (hunk : Located) : Line :=
  ['@', '@', ' ', '-'] ++ printRange hunk.srcPos hunk.srcSpan ++ [' ', '+']
    ++ printRange hunk.dstPos hunk.dstSpan ++ [' ', '@', '@']

def Piece.print : Piece → Line
  | .keep line => ' ' :: line
  | .delete line => '-' :: line
  | .insert line => '+' :: line

def printHunk (hunk : Located) : List Line := printHeader hunk :: hunk.pieces.map Piece.print

/-- The lines of a diff; the file headers carry the names of the two texts. -/
def printLines (names : Line × Line) (hunks : List Located) : List Line :=
  (['-', '-', '-', ' '] ++ names.1) :: (['+', '+', '+', ' '] ++ names.2)
    :: hunks.flatMap printHunk

/-- The unified diff of an edit, every line ended by a newline. -/
def unifiedDiff (names : Line × Line) (context : Nat → Bool) (src : Text) (edits : List Edit) :
    Text :=
  (printLines names (hunksOf context (src.splitOn '\n') edits)).flatMap fun line => line ++ ['\n']

/-! ## Scripts and edits -/

theorem source_append (first second : List Piece) :
    source (first ++ second) = source first ++ source second := flatMap_append

theorem target_append (first second : List Piece) :
    target (first ++ second) = target first ++ target second := flatMap_append

theorem source_keep (lines : List Line) : source (lines.map .keep) = lines := by
  simp [source, Piece.source, flatMap_map]

theorem target_keep (lines : List Line) : target (lines.map .keep) = lines := by
  simp [target, Piece.target, flatMap_map]

theorem source_delete (lines : List Line) : source (lines.map .delete) = lines := by
  simp [source, Piece.source, flatMap_map]

theorem target_delete (lines : List Line) : target (lines.map .delete) = [] := by
  simp [target, Piece.target, flatMap_map]

theorem source_insert (lines : List Line) : source (lines.map .insert) = [] := by
  simp [source, Piece.source, flatMap_map]

theorem target_insert (lines : List Line) : target (lines.map .insert) = lines := by
  simp [target, Piece.target, flatMap_map]

/-- The script of an edit starts from the text. -/
theorem source_script : ∀ (edits : List Edit) (pos : Nat) (lines : List Line),
    source (script pos lines edits) = lines
  | [], _, lines => source_keep lines
  | edit :: rest, pos, lines => by
    simp only [script, source_append, source_keep, source_delete, source_insert,
      source_script rest, append_nil]
    rw [append_assoc, take_append_drop, take_append_drop]

/-- The script of an edit ends at the edited text. -/
theorem target_script : ∀ (edits : List Edit) (pos : Nat) (lines : List Line),
    target (script pos lines edits) = editLines pos lines edits
  | [], _, lines => target_keep lines
  | edit :: rest, pos, lines => by
    simp only [script, target_append, target_keep, target_delete, target_insert,
      target_script rest, append_nil, editLines, drop_drop]

/-! ## Layouts -/

def Layout.source (layout : Layout) : List Line :=
  layout.blocks.flatMap (fun block => block.gap ++ UnifiedDiff.source block.pieces) ++ layout.tail

def Layout.target (layout : Layout) : List Line :=
  layout.blocks.flatMap (fun block => block.gap ++ UnifiedDiff.target block.pieces) ++ layout.tail

/-- A layout of a script: no two hunks touch. -/
structure Layout.Of (pieces : List Piece) (layout : Layout) : Prop where
  source : layout.source = UnifiedDiff.source pieces
  target : layout.target = UnifiedDiff.target pieces
  apart : ∀ block ∈ layout.blocks.tail, block.gap ≠ []
  shown : ∀ block ∈ layout.blocks, ∀ piece ∈ block.pieces, piece ∈ pieces

theorem Layout.Of.hide {pieces : List Piece} {layout : Layout} (of : layout.Of pieces)
    (line : Line) : (layout.hide line).Of (.keep line :: pieces) := by
  obtain ⟨blocks, tail⟩ := layout
  have source := congrArg (line :: ·) of.source
  have target := congrArg (line :: ·) of.target
  have shown : ∀ block ∈ blocks, ∀ piece ∈ block.pieces, piece ∈ .keep line :: pieces :=
    fun block member piece inBlock => mem_cons_of_mem _ (of.shown block member piece inBlock)
  cases blocks with
  | nil => exact ⟨source, target, of.apart, shown⟩
  | cons block later =>
    exact ⟨source, target, of.apart, forall_mem_cons.mpr (forall_mem_cons.mp shown)⟩

theorem Layout.Of.reveal {pieces : List Piece} {layout : Layout} (of : layout.Of pieces)
    (piece : Piece) : (layout.reveal piece).Of (piece :: pieces) := by
  obtain ⟨blocks, tail⟩ := layout
  have source := congrArg (piece.source ++ ·) of.source
  have target := congrArg (piece.target ++ ·) of.target
  have shown : ∀ block ∈ blocks, ∀ other ∈ block.pieces, other ∈ piece :: pieces :=
    fun block member other inBlock => mem_cons_of_mem _ (of.shown block member other inBlock)
  match blocks with
  | [] =>
    refine ⟨?_, ?_, nofun, ?_⟩
    · simpa [Layout.source, Layout.reveal, UnifiedDiff.source] using source
    · simpa [Layout.target, Layout.reveal, UnifiedDiff.target] using target
    · simp [Layout.reveal]
  | ⟨[], run⟩ :: later =>
    obtain ⟨first, others⟩ := forall_mem_cons.mp shown
    refine ⟨?_, ?_, of.apart, ?_⟩
    · simpa [Layout.source, Layout.reveal, UnifiedDiff.source] using source
    · simpa [Layout.target, Layout.reveal, UnifiedDiff.target] using target
    · exact forall_mem_cons.mpr ⟨forall_mem_cons.mpr ⟨mem_cons_self, first⟩, others⟩
  | ⟨line :: gap, run⟩ :: later =>
    refine ⟨?_, ?_, ?_, ?_⟩
    · simpa [Layout.source, Layout.reveal, UnifiedDiff.source] using source
    · simpa [Layout.target, Layout.reveal, UnifiedDiff.target] using target
    · exact forall_mem_cons.mpr ⟨cons_ne_nil line gap, of.apart⟩
    · exact forall_mem_cons.mpr ⟨by simp, shown⟩

theorem layout_of (context : Nat → Bool) (pieces : List Piece) :
    ∀ i : Nat, (layout context i pieces).Of pieces := by
  induction pieces with
  | nil =>
    intro i
    exact ⟨rfl, rfl, nofun, nofun⟩
  | cons piece rest ih =>
    intro i
    have later := ih (i + 1)
    cases piece with
    | keep line =>
      unfold layout
      split_ifs
      · exact later.reveal _
      · exact later.hide line
    | delete line => exact later.reveal _
    | insert line => exact later.reveal _

end AtomOneSdk.UnifiedDiff
