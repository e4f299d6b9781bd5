import AtomOneSdk.UnifiedDiff.ParseSpec

/-!
Contract: when applying the unified diff of an edit makes the edit.

Owns: what copying lines and applying a hunk do to the result, the run over all hunks, and
the insertion without context that lands one line too early.

Does **not** own: the parser.
-/

namespace AtomOneSdk.UnifiedDiff

open List

/-! ## One hunk -/

/-- A line that the check of inserted lines lets through. -/
def Insertable (line : Line) : Prop :=
  ∀ c ∈ line, ¬ (c.toNat < 32 ∧ c ≠ '\t') ∧ c.toNat ≠ 0x7F

instance : DecidablePred Insertable := fun line => List.decidableBAll _ line

theorem controlCharacter_of_insertable {line : Line} (insertable : Insertable line) :
    controlCharacter line = none := by
  rw [controlCharacter, find?_eq_none]
  intro item member
  have clean := insertable item.1 (fst_mem_of_mem_zipIdx member)
  simpa using clean

theorem OneLine.of_insertable {line : Line} (insertable : Insertable line) : OneLine line := by
  intro newline
  exact (insertable '\n' newline).1 (by decide)

def Piece.Clean : Piece → Prop
  | .insert line => Insertable line
  | _ => True

section Source

variable {srcLines : List Line}

theorem copyLines_eq (count : Nat) : ∀ {progress : Progress},
    progress.srcIndex + count ≤ srcLines.length →
    copyLines srcLines count progress
      = .ok ⟨progress.result ++ (srcLines.drop progress.srcIndex).take count,
          progress.srcIndex + count⟩ := by
  induction count with
  | zero =>
    intro progress _
    rw [take_zero, append_nil]
    rfl
  | succ count ih =>
    intro progress inside
    have here : progress.srcIndex < srcLines.length := by omega
    have next : progress.srcIndex + 1 + count ≤ srcLines.length := by omega
    rw [copyLines, getElem?_eq_getElem here]
    show copyLines srcLines count
      ⟨progress.result ++ [srcLines[progress.srcIndex]], progress.srcIndex + 1⟩ = _
    rw [ih next, drop_eq_getElem_cons here, take_succ_cons, append_assoc,
      singleton_append, Nat.add_assoc, Nat.add_comm 1 count]

/-- One line of a hunk whose source line is the next one of the source. -/
theorem applyLine_piece {piece : Piece} (clean : piece.Clean) {result rest : List Line} {i : Nat}
    (ahead : srcLines.drop i = piece.source ++ rest) :
    applyLine srcLines ⟨result, i⟩ piece.print
      = .ok ⟨result ++ piece.target, i + piece.source.length⟩ := by
  have head : ∀ line, srcLines.drop i = line :: rest → srcLines[i]? = some line := by
    intro line dropped
    rw [← head?_drop, dropped]
    rfl
  cases piece with
  | keep line =>
    simp [applyLine, Piece.print, Piece.target, Piece.source, head line ahead, pure, Except.pure]
  | delete line =>
    simp [applyLine, Piece.print, Piece.target, Piece.source, head line ahead, pure, Except.pure]
  | insert line =>
    simp [applyLine, Piece.print, Piece.target, Piece.source,
      controlCharacter_of_insertable clean, pure, Except.pure]

theorem applyLine_pieces (pieces : List Piece) :
    (∀ piece ∈ pieces, piece.Clean) → ∀ {result rest : List Line} {i : Nat},
      srcLines.drop i = source pieces ++ rest →
      (pieces.map Piece.print).foldlM (applyLine srcLines) ⟨result, i⟩
        = .ok ⟨result ++ target pieces, i + (source pieces).length⟩ := by
  induction pieces with
  | nil =>
    intro _ result rest i _
    show Except.ok (⟨result, i⟩ : Progress) = .ok ⟨result ++ [], i + 0⟩
    rw [append_nil, Nat.add_zero]
  | cons piece pieces ih =>
    intro clean result rest i ahead
    have split : srcLines.drop i = piece.source ++ (source pieces ++ rest) := by
      rw [ahead, ← append_assoc]
      rfl
    have later : srcLines.drop (i + piece.source.length) = source pieces ++ rest := by
      rw [← drop_drop, split, drop_left]
    rw [map_cons, foldlM_cons, applyLine_piece (clean piece mem_cons_self) split]
    show List.foldlM (applyLine srcLines) _ _ = _
    rw [ih (fun p member => clean p (mem_cons_of_mem _ member)) later, append_assoc,
      Nat.add_assoc, ← length_append]
    rfl

/-- A hunk is applied at the place its header names: the lines up to it are copied. -/
theorem applyHunk_eq {hunk : Located} (clean : ∀ piece ∈ hunk.pieces, piece.Clean)
    {progress : Progress} (inside : progress.srcIndex ≤ srcLines.length) {copied rest : List Line}
    (place : hunk.toHunk.srcLine = ((progress.srcIndex + copied.length : Nat) : Int))
    (ahead : srcLines.drop progress.srcIndex = copied ++ (source hunk.pieces ++ rest)) :
    applyHunk srcLines progress hunk.toHunk
      = .ok ⟨progress.result ++ copied ++ target hunk.pieces,
          progress.srcIndex + copied.length + hunk.srcSpan⟩ := by
  have later : srcLines.drop (progress.srcIndex + copied.length) = source hunk.pieces ++ rest := by
    rw [← drop_drop, ahead, drop_left]
  have fits : progress.srcIndex + copied.length ≤ srcLines.length := by
    have lengths := congrArg List.length ahead
    rw [length_drop, length_append] at lengths
    omega
  have count : (((progress.srcIndex + copied.length : Nat) : Int) - progress.srcIndex).toNat
      = copied.length := by
    omega
  rw [applyHunk, place, if_neg (by omega), if_neg (by omega), count]
  dsimp only
  rw [copyLines_eq _ fits, ahead, take_left]
  exact applyLine_pieces hunk.pieces clean later

/-! ## All hunks -/

/-- The parser places a hunk without source lines one line too early: its lines go before the
line its header names. The text is the same if they all equal that line. -/
def Located.Harmless (srcLines : List Line) (hunk : Located) : Prop :=
  hunk.srcSpan = 0 →
    0 < hunk.srcPos ∧ ∀ line ∈ target hunk.pieces, srcLines[hunk.srcPos - 1]? = some line

theorem Layout.source_cons (block : Block) (later : List Block) (tail : List Line) :
    Layout.source ⟨block :: later, tail⟩
      = block.gap ++ (UnifiedDiff.source block.pieces ++ Layout.source ⟨later, tail⟩) := by
  simp [Layout.source]

theorem Layout.target_cons (block : Block) (later : List Block) (tail : List Line) :
    Layout.target ⟨block :: later, tail⟩
      = block.gap ++ (UnifiedDiff.target block.pieces ++ Layout.target ⟨later, tail⟩) := by
  simp [Layout.target]

theorem append_singleton_comm_iff {line : Line} (lines : List Line) :
    lines ++ [line] = line :: lines ↔ ∀ other ∈ lines, other = line := by
  induction lines with
  | nil => simp
  | cons first rest ih =>
    rw [cons_append, cons.injEq, forall_mem_cons, ← ih]
    constructor
    · rintro ⟨rfl, same⟩
      exact ⟨rfl, same⟩
    · rintro ⟨rfl, same⟩
      exact ⟨rfl, same⟩

/-- What the loop over hunks writes, with the source lines it has not used: the lines before
the next hunk, and then the lines of the target, moved about unless all hunks are harmless. -/
structure Written (srcLines : List Line) (hunks : List Located) (start : List Line)
    (target : List Line) (after : Progress) (later : List Line) : Prop where
  written : after.result ++ srcLines.drop after.srcIndex = start ++ later
  moved : later.Perm target
  exact_ : later = target ↔ ∀ hunk ∈ hunks, hunk.Harmless srcLines

section Step

variable {hunk : Located} {hunks : List Located} {start gap whole later next : List Line}
  {after : Progress} {line : Line}

theorem Written.inPlace (spans : hunk.srcSpan ≠ 0)
    (rest : Written srcLines hunks (start ++ gap ++ target hunk.pieces) next after later) :
    Written srcLines (hunk :: hunks) start (gap ++ (target hunk.pieces ++ next)) after
      (gap ++ (target hunk.pieces ++ later)) where
  written := by
    rw [rest.written]
    simp only [append_assoc]
  moved := (rest.moved.append_left _).append_left _
  exact_ := by
    rw [append_cancel_left_eq, append_cancel_left_eq, rest.exact_, forall_mem_cons, and_iff_right]
    exact fun none_ => absurd none_ spans

/-- The lines of the hunk change places with the line before them. -/
theorem Written.early (isGap : whole = gap ++ [line]) (spans : hunk.srcSpan = 0)
    (positive : 0 < hunk.srcPos) (named : srcLines[hunk.srcPos - 1]? = some line)
    (rest : Written srcLines hunks (start ++ gap ++ target hunk.pieces ++ [line]) next after
      later) :
    Written srcLines (hunk :: hunks) start (whole ++ (target hunk.pieces ++ next)) after
      (gap ++ (target hunk.pieces ++ [line] ++ later)) where
  written := by
    rw [rest.written]
    simp only [append_assoc]
  moved := by
    rw [isGap, append_assoc gap]
    apply Perm.append_left
    rw [← append_assoc [line]]
    exact perm_append_comm.append rest.moved
  exact_ := by
    have harmless : hunk.Harmless srcLines ↔ ∀ other ∈ target hunk.pieces, other = line := by
      constructor
      · intro holds other member
        exact (Option.some.inj (named.symm.trans ((holds spans).2 other member))).symm
      · intro same _
        refine ⟨positive, fun other member => ?_⟩
        rw [same other member]
        exact named
    have lengths : (target hunk.pieces ++ [line]).length = (line :: target hunk.pieces).length :=
      length_append
    rw [isGap, append_assoc gap, append_cancel_left_eq, forall_mem_cons, ← rest.exact_, harmless,
      ← append_singleton_comm_iff]
    exact ⟨fun same => append_inj same lengths,
      fun both => by rw [both.1, both.2, cons_append]; rfl⟩

end Step

/-- The loop over the hunks, `lag` source lines before the place it has come to. -/
theorem applyHunks_locate (blocks : List Block) (tail : List Line) :
    (∀ block ∈ blocks, ∀ piece ∈ block.pieces, piece.Clean) →
    (∀ block ∈ blocks.tail, block.gap ≠ []) →
    ∀ {srcPos dstPos : Nat} {progress : Progress} {lag : List Line},
      (∀ block ∈ blocks.head?, block.gap = [] → source block.pieces ≠ []) →
      progress.srcIndex ≤ srcLines.length → progress.srcIndex + lag.length = srcPos →
      srcLines.drop progress.srcIndex = lag ++ Layout.source ⟨blocks, tail⟩ →
      ∃ after later,
        ((locate srcPos dstPos blocks).map Located.toHunk).foldlM (applyHunk srcLines) progress
            = .ok after
          ∧ Written srcLines (locate srcPos dstPos blocks) (progress.result ++ lag)
              (Layout.target ⟨blocks, tail⟩) after later := by
  induction blocks with
  | nil =>
    intro _ _ srcPos dstPos progress lag _ _ _ ahead
    refine ⟨progress, tail, rfl, ?_, .refl _, by simp [locate, Layout.target]⟩
    rw [ahead, append_assoc]
    rfl
  | cons block blocks ih =>
    intro clean apart srcPos dstPos progress lag first inside reached ahead
    have cleanLater : ∀ block ∈ blocks, ∀ piece ∈ block.pieces, piece.Clean :=
      fun other member => clean other (mem_cons_of_mem block member)
    have apartLater : ∀ block ∈ blocks.tail, block.gap ≠ [] :=
      fun other member => apart other (mem_of_mem_tail member)
    have firstLater : ∀ block ∈ blocks.head?, block.gap = [] → source block.pieces ≠ [] :=
      fun other isFirst none_ => absurd none_ (apart other (mem_of_head? isFirst))
    rw [Layout.source_cons] at ahead
    have lengths := congrArg List.length ahead
    simp only [length_drop, length_append] at lengths
    rw [Layout.target_cons, locate, map_cons, foldlM_cons]
    by_cases spans : source block.pieces = []
    · -- without source lines the hunk goes before the last line of its gap
      obtain ⟨gap, line, isGap⟩ := (eq_nil_or_concat' block.gap).resolve_left
        fun none_ => first block rfl none_ spans
      have gapLength : block.gap.length = gap.length + 1 := by rw [isGap, length_append]; rfl
      rw [isGap, spans, append_assoc gap, ← append_assoc lag] at ahead
      have applied := @applyHunk_eq srcLines ⟨srcPos + block.gap.length,
        dstPos + block.gap.length, block.pieces⟩ (clean block mem_cons_self) progress inside
        (lag ++ gap) ([line] ++ Layout.source ⟨blocks, tail⟩)
        (by simp [Located.toHunk, Located.srcSpan, rangeStart, spans]; omega)
        (by rw [ahead, spans]; rfl)
      have noSpan : Located.srcSpan ⟨srcPos + block.gap.length, dstPos + block.gap.length,
        block.pieces⟩ = 0 := congrArg List.length spans
      have place : progress.srcIndex + (lag ++ gap).length = srcPos + block.gap.length - 1 := by
        rw [length_append]
        omega
      have named : srcLines[srcPos + block.gap.length - 1]? = some line := by
        rw [← place, ← getElem?_drop, ahead, getElem?_append_right (le_refl _), Nat.sub_self]
        rfl
      obtain ⟨after, later, ran, rest⟩ := @ih cleanLater apartLater
        (srcPos + block.gap.length + (source block.pieces).length)
        (dstPos + block.gap.length + (target block.pieces).length)
        ⟨progress.result ++ (lag ++ gap) ++ target block.pieces,
          progress.srcIndex + (lag ++ gap).length⟩ [line] firstLater
        (by show _ + _ ≤ _; omega)
        (by rw [spans, length_singleton, length_nil]; show _ + _ + 1 = _; omega)
        (by rw [← drop_drop, ahead, drop_left]; rfl)
      rw [noSpan] at applied
      rw [← append_assoc progress.result] at rest
      rw [applied]
      exact ⟨after, _, ran, rest.early isGap noSpan (by show 0 < srcPos + _; omega) named⟩
    · have applied := @applyHunk_eq srcLines ⟨srcPos + block.gap.length,
        dstPos + block.gap.length, block.pieces⟩ (clean block mem_cons_self) progress inside
        (lag ++ block.gap) (Layout.source ⟨blocks, tail⟩)
        (by simp [Located.toHunk, Located.srcSpan, rangeStart, spans]; omega)
        (by rw [ahead, append_assoc])
      have place : progress.srcIndex + (lag ++ block.gap).length = srcPos + block.gap.length := by
        rw [length_append]
        omega
      obtain ⟨after, later, ran, rest⟩ := @ih cleanLater apartLater
        (srcPos + block.gap.length + (source block.pieces).length)
        (dstPos + block.gap.length + (target block.pieces).length)
        ⟨progress.result ++ (lag ++ block.gap) ++ target block.pieces,
          progress.srcIndex + (lag ++ block.gap).length + (source block.pieces).length⟩ []
        firstLater (by show _ + _ + _ ≤ _; omega) (by rw [← place]; rfl)
        (by rw [← drop_drop, ← drop_drop, ahead, ← append_assoc, drop_left, drop_left]; rfl)
      rw [applied]
      rw [← append_assoc progress.result, append_nil] at rest
      exact ⟨after, _, ran, rest.inPlace fun none_ => spans (length_eq_zero_iff.mp none_)⟩

end Source

/-! ## Hunks of an edit -/

theorem mem_locate {hunk : Located} (blocks : List Block) (tail : List Line) :
    ∀ {srcPos dstPos : Nat}, hunk ∈ locate srcPos dstPos blocks →
      (∃ block ∈ blocks, hunk.pieces = block.pieces)
        ∧ hunk.srcPos + hunk.srcSpan ≤ srcPos + (Layout.source ⟨blocks, tail⟩).length
        ∧ hunk.dstPos + hunk.dstSpan ≤ dstPos + (Layout.target ⟨blocks, tail⟩).length := by
  induction blocks with
  | nil =>
    intro srcPos dstPos member
    cases member
  | cons block blocks ih =>
    intro srcPos dstPos member
    simp only [Layout.source_cons, Layout.target_cons, length_append]
    rcases mem_cons.mp member with isFirst | inLater
    · rw [isFirst]
      refine ⟨⟨block, mem_cons_self, rfl⟩, ?_, ?_⟩
      · show srcPos + block.gap.length + (source block.pieces).length ≤ _
        omega
      · show dstPos + block.gap.length + (target block.pieces).length ≤ _
        omega
    · obtain ⟨⟨found, inBlocks, same⟩, srcBound, dstBound⟩ := ih inLater
      exact ⟨⟨found, mem_cons_of_mem block inBlocks, same⟩, by omega, by omega⟩

theorem mem_source {piece : Piece} {pieces : List Piece} (member : piece ∈ pieces) {line : Line}
    (inPiece : line ∈ piece.source) : line ∈ source pieces :=
  mem_flatMap.mpr ⟨piece, member, inPiece⟩

/-- The inserted lines of a script are those of its edits. -/
theorem insert_mem_script {line : Line} (edits : List Edit) : ∀ {pos : Nat} {lines : List Line},
    .insert line ∈ script pos lines edits → ∃ edit ∈ edits, line ∈ edit.inserted := by
  induction edits with
  | nil =>
    intro pos lines member
    obtain ⟨kept, _, isKeep⟩ := mem_map.mp member
    cases isKeep
  | cons edit rest ih =>
    intro pos lines member
    simp only [script, mem_append, mem_map, reduceCtorEq, and_false, exists_false,
      false_or, Piece.insert.injEq, exists_eq_right] at member
    rcases member with here | further
    · exact ⟨edit, mem_cons_self, here⟩
    · obtain ⟨later, isLater, inLater⟩ := ih further
      exact ⟨later, mem_cons_of_mem _ isLater, inLater⟩

section Edits

variable {context : Nat → Bool} {lines : List Line} {edits : List Edit}

theorem mem_script_of_hunk {hunk : Located} (member : hunk ∈ hunksOf context lines edits)
    {piece : Piece} (inPieces : piece ∈ hunk.pieces) : piece ∈ script 0 lines edits := by
  obtain ⟨⟨block, inBlocks, same⟩, _⟩ := mem_locate _ [] member
  rw [same] at inPieces
  exact (layout_of context _ 0).shown block inBlocks piece inPieces

theorem layout_source : (layout context 0 (script 0 lines edits)).source = lines :=
  (layout_of context _ 0).source.trans (source_script edits 0 lines)

theorem layout_target :
    (layout context 0 (script 0 lines edits)).target = editLines 0 lines edits :=
  (layout_of context _ 0).target.trans (target_script edits 0 lines)

theorem Located.fits_of_mem (srcFits : (lines.length : Int) ≤ maxInt)
    (dstFits : ((editLines 0 lines edits).length : Int) ≤ maxInt) {hunk : Located}
    (member : hunk ∈ hunksOf context lines edits) : hunk.Fits := by
  obtain ⟨_, srcBound, dstBound⟩ :=
    mem_locate _ (layout context 0 (script 0 lines edits)).tail member
  rw [show Layout.source ⟨_, _⟩ = lines from layout_source] at srcBound
  rw [show Layout.target ⟨_, _⟩ = _ from layout_target] at dstBound
  constructor <;> omega

variable (insertable : ∀ edit ∈ edits, ∀ line ∈ edit.inserted, Insertable line)

include insertable in
theorem clean_of_mem_script {piece : Piece} (member : piece ∈ script 0 lines edits) :
    piece.Clean := by
  cases piece with
  | keep line => trivial
  | delete line => trivial
  | insert line =>
    obtain ⟨edit, isEdit, inserted⟩ := insert_mem_script edits member
    exact insertable edit isEdit line inserted

include insertable in
theorem oneLine_of_mem_script (oneLine : ∀ line ∈ lines, OneLine line) {piece : Piece}
    (member : piece ∈ script 0 lines edits) : OneLine piece.line := by
  have fromSource : ∀ line ∈ piece.source, OneLine line := by
    intro line inPiece
    have inSource := mem_source member inPiece
    rw [source_script] at inSource
    exact oneLine line inSource
  cases piece with
  | keep line => exact fromSource line mem_cons_self
  | delete line => exact fromSource line mem_cons_self
  | insert line => exact .of_insertable (clean_of_mem_script insertable member)

include insertable in
theorem editLines_oneLine (oneLine : ∀ line ∈ lines, OneLine line) :
    ∀ line ∈ editLines 0 lines edits, OneLine line := by
  intro line member
  rw [← target_script] at member
  obtain ⟨piece, inScript, inPiece⟩ := mem_flatMap.mp member
  have own := oneLine_of_mem_script insertable oneLine inScript
  cases piece with
  | keep kept => rwa [mem_singleton.mp inPiece]
  | delete deleted => cases inPiece
  | insert inserted => rwa [mem_singleton.mp inPiece]

/-- A hunk at the top of the text without source lines is placed before the first line. -/
theorem applyHunk_top {srcLines : List Line} {progress : Progress} {hunk : Located}
    (top : hunk.srcPos = 0) (spans : hunk.srcSpan = 0) :
    applyHunk srcLines progress hunk.toHunk = .error (.hunkOutOfOrder 0 progress.srcIndex) := by
  have place : hunk.toHunk.srcLine = -1 := by
    simp [Located.toHunk, rangeStart, top, spans]
  rw [applyHunk, place, if_neg (by omega), if_pos (by omega)]
  rfl

include insertable in
/-- The hunks of an edit are refused, or applied to the edited lines up to their order. -/
theorem applyHunks_hunksOf {src : Text} :
    (∃ reason, applyHunks src
        ((hunksOf context (src.splitOn '\n') edits).map Located.toHunk) = .error reason
      ∧ ¬ ∀ hunk ∈ hunksOf context (src.splitOn '\n') edits, hunk.Harmless (src.splitOn '\n'))
    ∨ ∃ later, applyHunks src
        ((hunksOf context (src.splitOn '\n') edits).map Located.toHunk) = .ok later
      ∧ later.Perm (editLines 0 (src.splitOn '\n') edits)
      ∧ (later = editLines 0 (src.splitOn '\n') edits
        ↔ ∀ hunk ∈ hunksOf context (src.splitOn '\n') edits,
          hunk.Harmless (src.splitOn '\n')) := by
  have of := layout_of context (script 0 (src.splitOn '\n') edits) 0
  have clean : ∀ block ∈ (layout context 0 (script 0 (src.splitOn '\n') edits)).blocks,
      ∀ piece ∈ block.pieces, piece.Clean :=
    fun block member piece inBlock =>
      clean_of_mem_script insertable (of.shown block member piece inBlock)
  have whole := @layout_source context (src.splitOn '\n') edits
  rw [← @layout_target context (src.splitOn '\n') edits]
  simp only [hunksOf, applyHunks]
  generalize layout context 0 (script 0 (src.splitOn '\n') edits) = shown at of clean whole ⊢
  by_cases top : ∃ block ∈ shown.blocks.head?, block.gap = [] ∧ UnifiedDiff.source block.pieces = []
  · obtain ⟨block, isFirst, none_, spans⟩ := top
    obtain ⟨later, found⟩ := head?_eq_some_iff.mp isFirst
    left
    rw [found]
    refine ⟨.hunkOutOfOrder 0 0, ?_, fun harmless => ?_⟩
    · rw [locate, map_cons, foldlM_cons, applyHunk_top]
      · rfl
      · simp [none_]
      · exact congrArg List.length spans
    · have positive := (harmless _ mem_cons_self (congrArg List.length spans)).1
      simp [none_] at positive
  · right
    obtain ⟨after, later, ran, written⟩ := @applyHunks_locate (src.splitOn '\n') shown.blocks
      shown.tail clean of.apart 0 0 ⟨[], 0⟩ [] (fun block isFirst none_ spans =>
        top ⟨block, isFirst, none_, spans⟩) (Nat.zero_le _) rfl whole.symm
    refine ⟨later, ?_, written.moved, written.exact_⟩
    rw [ran]
    exact congrArg Except.ok written.written

end Edits

/-! ## Edits -/

/-- Lines that only change places make another text. -/
theorem intercalate_inj {first second : List Line} (moved : first.Perm second)
    (oneLine : ∀ line ∈ second, OneLine line) :
    ['\n'].intercalate first = ['\n'].intercalate second ↔ first = second := by
  constructor
  · intro same
    by_cases none_ : second = []
    · rw [none_] at moved ⊢
      exact moved.eq_nil
    · have nonempty : first ≠ [] :=
        fun empty => none_ (by rw [empty] at moved; exact moved.nil_eq.symm)
      have split := splitOn_intercalate '\n'
        (fun line member => oneLine line (moved.mem_iff.mp member)) nonempty
      rw [← split, same, splitOn_intercalate '\n' oneLine none_]
  · exact congrArg _

/-- The unified diff of an edit, with any choice of context lines, is accepted and applying it
makes the edit exactly if it has a hunk and its hunks without source lines are harmless. -/
theorem unified_diff_makes_edit_iff {names : Line × Line} {context : Nat → Bool} {src : Text}
    {edits : List Edit} (srcName : OneLine names.1) (dstName : OneLine names.2)
    (insertable : ∀ edit ∈ edits, ∀ line ∈ edit.inserted, Insertable line)
    (srcFits : ((src.splitOn '\n').length : Int) ≤ maxInt)
    (dstFits : ((editLines 0 (src.splitOn '\n') edits).length : Int) ≤ maxInt) :
    ((∃ hunks, parseUnifiedDiff (unifiedDiff names context src edits) = .ok hunks)
        ∧ applyUnifiedDiff src (unifiedDiff names context src edits) = .ok (editText src edits))
      ↔ hunksOf context (src.splitOn '\n') edits ≠ []
        ∧ ∀ hunk ∈ hunksOf context (src.splitOn '\n') edits,
          hunk.Harmless (src.splitOn '\n') := by
  have lines : ∀ line ∈ src.splitOn '\n', OneLine line := fun _ => oneLine_of_split
  have oneLine : ∀ hunk ∈ hunksOf context (src.splitOn '\n') edits,
      ∀ piece ∈ hunk.pieces, OneLine piece.line :=
    fun hunk member piece inPieces =>
      oneLine_of_mem_script insertable lines (mem_script_of_hunk member inPieces)
  have parsed := parseUnifiedDiff_print srcName dstName oneLine
    (fun hunk => Located.fits_of_mem srcFits dstFits)
  rw [applyUnifiedDiff, unifiedDiff, parsed]
  by_cases none_ : hunksOf context (src.splitOn '\n') edits = []
  · rw [if_pos none_]
    exact ⟨fun accepted => (nomatch accepted.2), fun holds => absurd none_ holds.1⟩
  · rw [if_neg none_]
    show (∃ hunks, Except.ok _ = .ok hunks) ∧ (do
      let resultLines ← applyHunks src _
      pure (['\n'].intercalate resultLines)) = _ ↔ _
    rw [and_iff_right ⟨_, rfl⟩, and_iff_right none_]
    rcases @applyHunks_hunksOf context edits insertable src with
      ⟨reason, refused, harmful⟩ | ⟨later, applied, moved, exact_⟩
    · rw [refused]
      exact ⟨nofun, fun harmless => absurd harmless harmful⟩
    · rw [applied, ← exact_, ← intercalate_inj moved (editLines_oneLine insertable lines)]
      exact ⟨Except.ok.inj, congrArg Except.ok⟩

/-- A line replaced in the middle of a text, with one line of context. -/
theorem replaced_line_is_applied :
    (∃ hunks, parseUnifiedDiff (unifiedDiff ("a".toList, "b".toList) (linesOfContext 1
        (script 0 ("a\nb\nc\nd".toList.splitOn '\n') [⟨1, 1, ["x".toList]⟩]))
        "a\nb\nc\nd".toList [⟨1, 1, ["x".toList]⟩]) = .ok hunks)
      ∧ applyUnifiedDiff "a\nb\nc\nd".toList (unifiedDiff ("a".toList, "b".toList)
          (linesOfContext 1
            (script 0 ("a\nb\nc\nd".toList.splitOn '\n') [⟨1, 1, ["x".toList]⟩]))
          "a\nb\nc\nd".toList [⟨1, 1, ["x".toList]⟩])
        = .ok (editText "a\nb\nc\nd".toList [⟨1, 1, ["x".toList]⟩]) := by
  have oneLine : ∀ name ∈ ["a".toList, "b".toList], OneLine name := by
    unfold OneLine
    decide
  apply (unified_diff_makes_edit_iff (oneLine _ (by decide)) (oneLine _ (by decide)) (by decide)
    (by decide) (by decide)).mpr
  refine ⟨by decide +kernel, fun hunk member none_ => ?_⟩
  have spans : ∀ hunk ∈ hunksOf (linesOfContext 1
      (script 0 ("a\nb\nc\nd".toList.splitOn '\n') [⟨1, 1, ["x".toList]⟩]))
      ("a\nb\nc\nd".toList.splitOn '\n') [⟨1, 1, ["x".toList]⟩], hunk.srcSpan ≠ 0 := by
    decide +kernel
  exact absurd none_ (spans hunk member)

/-- A line inserted behind the second one of a text lands behind the first when the diff has
no context: the header `-2,0` names the line before the insertion. -/
theorem insertion_without_context_lands_early :
    applyUnifiedDiff "a\nb\nc".toList (unifiedDiff ("a".toList, "b".toList)
        (linesOfContext 0 (script 0 ("a\nb\nc".toList.splitOn '\n') [⟨2, 0, ["x".toList]⟩]))
        "a\nb\nc".toList [⟨2, 0, ["x".toList]⟩])
      = .ok "a\nx\nb\nc".toList
    ∧ editText "a\nb\nc".toList [⟨2, 0, ["x".toList]⟩] = "a\nb\nx\nc".toList := by
  decide +kernel

end AtomOneSdk.UnifiedDiff
