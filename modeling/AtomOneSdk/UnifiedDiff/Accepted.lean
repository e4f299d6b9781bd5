import AtomOneSdk.Lib.Action
import AtomOneSdk.UnifiedDiff.Indexing
import AtomOneSdk.UnifiedDiff.Properties

/-!
Contract: an accepted diff changes what its hunks say and nothing else.

Owns: the source, result and inserted lines of a hunk, the text with the ranges of the hunks
replaced, that every accepted diff yields it, and which accepted diffs insert a control
character or a line that nothing announces.

Does **not** own: which diffs are accepted.
-/

namespace AtomOneSdk.UnifiedDiff

open Lib List

/-! ## Lines of a hunk -/

/-- The line of the source a line of a hunk stands for. -/
def sourceLine? : Line → Option Line
  | ' ' :: content => some content
  | '-' :: content => some content
  | _ => none

/-- The line of the result a line of a hunk stands for. -/
def resultLine? : Line → Option Line
  | ' ' :: content => some content
  | '+' :: content => some content
  | _ => none

def insertedLine? : Line → Option Line
  | '+' :: content => some content
  | _ => none

def Hunk.sourceLines (hunk : Hunk) : List Line := hunk.lines.filterMap sourceLine?

def Hunk.resultLines (hunk : Hunk) : List Line := hunk.lines.filterMap resultLine?

def Hunk.insertedLines (hunk : Hunk) : List Line := hunk.lines.filterMap insertedLine?

/-- The lines behind a position, with the range of each hunk replaced by its result lines. -/
def replaceRanges (srcLines : List Line) : Nat → List Hunk → List Line
  | pos, [] => srcLines.drop pos
  | pos, hunk :: hunks =>
    (srcLines.drop pos).take (hunk.srcLine.toNat - pos) ++ hunk.resultLines
      ++ replaceRanges srcLines (hunk.srcLine + hunk.srcSpan).toNat hunks

/-- What an accepted diff did to the lines of a source. -/
structure Amended (srcLines : List Line) (hunks : List Hunk) (result : List Line) : Prop where
  inside : ∀ hunk ∈ hunks, 0 ≤ hunk.srcLine ∧ 0 ≤ hunk.srcSpan
    ∧ hunk.srcLine + hunk.srcSpan ≤ srcLines.length
  inOrder : hunks.Pairwise fun first second => first.srcLine + first.srcSpan ≤ second.srcLine
  replaced : result = replaceRanges srcLines 0 hunks
  count : (result.length : Int)
    = srcLines.length + (hunks.map fun hunk => hunk.dstSpan - hunk.srcSpan).sum
  standFor : ∀ hunk ∈ hunks, hunk.sourceLines
    = (srcLines.drop hunk.srcLine.toNat).take hunk.srcSpan.toNat
  insertable : ∀ hunk ∈ hunks, ∀ line ∈ hunk.insertedLines, Insertable line

/-- The control characters of Unicode, category `Cc`. -/
def isControl (c : Char) : Bool :=
  c.toNat < 0x20 || (0x7F ≤ c.toNat && c.toNat ≤ 0x9F)

/-- The lines of the text are the source lines with the ranges replaced, and no inserted line
has a control character other than a tab. -/
structure AsAnnounced (src : Text) (hunks : List Hunk) (text : Text) : Prop where
  amended : Amended (src.splitOn '\n') hunks (text.splitOn '\n')
  clean : ∀ hunk ∈ hunks, ∀ line ∈ hunk.insertedLines,
    ∀ c ∈ line, isControl c = true → c = '\t'

/-- The number of lines that the headers of the hunks announce. -/
def announcedCount (src : Text) (hunks : List Hunk) : Int :=
  (src.splitOn '\n').length + (hunks.map fun hunk => hunk.dstSpan - hunk.srcSpan).sum

/-! ## Parsed hunks -/

theorem mapError_eq_ok {ε δ α : Type} {wrap : ε → δ} {outcome : Except ε α} {value : α} :
    outcome.mapError wrap = .ok value ↔ outcome = .ok value := by
  cases outcome with
  | error reason => exact ⟨(nomatch ·), (nomatch ·)⟩
  | ok found =>
    constructor
    · intro same
      cases same
      rfl
    · intro same
      cases same
      rfl

/-- The counts of an accepted hunk are those of its lines. -/
theorem countLines_ok (lines : List Line) : ∀ {counts : Int × Int}, countLines lines = .ok counts →
    counts.1 = (lines.filterMap sourceLine?).length
      ∧ counts.2 = (lines.filterMap resultLine?).length := by
  induction lines with
  | nil =>
    intro counts counted
    cases counted
    exact ⟨rfl, rfl⟩
  | cons line lines rest =>
    intro counts counted
    unfold countLines at counted
    split at counted
    case h_1 => contradiction
    case h_6 => cases counted
    case h_2 same =>
      cases same
      exact rest counted
    -- context, removed and inserted lines
    all_goals
      rename_i same
      cases same
      obtain ⟨others, found, total⟩ := bind_eq_ok.mp counted
      cases total
      obtain ⟨source, result⟩ := rest found
      simp [sourceLine?, resultLine?, source, result]

variable {hunk : Hunk} {parsed : Parsed} {hunks : List Hunk} {src : Text} {result : List Line}

/-- The spans of a validated hunk are the numbers of its source and result lines. -/
theorem validateHunk_ok (valid : validateHunk hunk = .ok ()) :
    hunk.srcSpan = hunk.sourceLines.length ∧ hunk.dstSpan = hunk.resultLines.length := by
  obtain ⟨counts, counted, compared⟩ := bind_eq_ok.mp valid
  obtain ⟨source, result⟩ := countLines_ok hunk.lines counted
  dsimp only at compared
  by_cases sourceDiffers : counts.1 ≠ hunk.srcSpan
  · rw [if_pos sourceDiffers] at compared
    cases compared
  · by_cases resultDiffers : counts.2 ≠ hunk.dstSpan
    · rw [if_neg sourceDiffers, if_pos resultDiffers] at compared
      cases compared
    · rw [← not_ne_iff.mp sourceDiffers, ← not_ne_iff.mp resultDiffers]
      exact ⟨source, result⟩

def Parsed.Validated (parsed : Parsed) : Prop := ∀ hunk ∈ parsed.hunks, validateHunk hunk = .ok ()

theorem Parsed.Validated.close (validated : parsed.Validated) (valid : validateHunk hunk = .ok ()) :
    ∀ other ∈ parsed.hunks ++ [hunk], validateHunk other = .ok () := by
  intro other member
  rcases mem_append.mp member with earlier | last
  · exact validated other earlier
  · rw [mem_singleton.mp last]
    exact valid

theorem parseLine_validated {next : Parsed} {item : Line × Nat} (validated : parsed.Validated)
    (ran : parseLine parsed item = .ok next) : next.Validated := by
  obtain ⟨line, i⟩ := item
  unfold parseLine at ran
  dsimp only at ran
  by_cases header : startsWith line ['@', '@'] = true
  · rw [if_pos header] at ran
    obtain ⟨h, _, continued⟩ := bind_eq_ok.mp ran
    cases current : parsed.hunk with
    | none =>
      rw [current] at continued
      cases continued
      exact validated
    | some hunk =>
      rw [current] at continued
      obtain ⟨_, ended, same⟩ := bind_eq_ok.mp continued
      cases same
      exact validated.close (mapError_eq_ok.mp ended)
  · rw [if_neg header] at ran
    cases current : parsed.hunk with
    | none =>
      rw [current] at ran
      dsimp only at ran
      split_ifs at ran
      · cases ran
      · cases ran
        exact validated
    | some hunk =>
      rw [current] at ran
      cases line with
      | nil =>
        cases ran
        exact validated
      | cons c content =>
        dsimp only at ran
        split_ifs at ran
        · cases ran
        · cases ran
          exact validated

theorem parseLines_validated (items : List (Line × Nat)) : ∀ {parsed last : Parsed},
    parsed.Validated → items.foldlM parseLine parsed = .ok last → last.Validated := by
  induction items with
  | nil =>
    intro parsed last validated ran
    cases ran
    exact validated
  | cons item items rest =>
    intro parsed last validated ran
    obtain ⟨next, turn, others⟩ := bind_eq_ok.mp ran
    exact rest (parseLine_validated validated turn) others

theorem parseUnifiedDiff_validated {diffStr : Text} (ran : parseUnifiedDiff diffStr = .ok hunks) :
    ∀ hunk ∈ hunks, validateHunk hunk = .ok () := by
  obtain ⟨parsed, loop, ended⟩ := bind_eq_ok.mp ran
  have validated : parsed.Validated := 
    parseLines_validated _ (fun _ member => absurd member not_mem_nil) loop
  cases current : parsed.hunk with
  | none =>
    rw [current] at ended
    simp only [pure_bind] at ended
    split_ifs at ended
    · cases ended
    · cases ended
      exact validated
  | some hunk =>
    rw [current] at ended
    obtain ⟨_, valid, nonempty⟩ := bind_eq_ok.mp ended
    simp only [pure_bind] at nonempty
    split_ifs at nonempty
    · cases nonempty
    · cases nonempty
      exact validated.close (mapError_eq_ok.mp valid)

/-! ## Applied hunks -/

section Source

variable {srcLines : List Line}

/-- What some lines of a hunk did: the lines they stand for were there and are used up. -/
structure LinesApplied (srcLines : List Line) (lines : List Line) (before after : Progress) :
    Prop where
  result : after.result = before.result ++ lines.filterMap resultLine?
  srcIndex : after.srcIndex = before.srcIndex + (lines.filterMap sourceLine?).length
  standFor : (srcLines.drop before.srcIndex).take (lines.filterMap sourceLine?).length
    = lines.filterMap sourceLine?
  insertable : ∀ line ∈ lines.filterMap insertedLine?, Insertable line

variable {line : Line} {before after between : Progress} {hunk : Hunk}

theorem insertable_of_controlCharacter (none_ : controlCharacter line = none) :
    Insertable line := by
  rw [controlCharacter, find?_eq_none] at none_
  intro c member
  obtain ⟨i, inside, isC⟩ := mem_iff_getElem.mp member
  have found : (c, i) ∈ line.zipIdx := by
    rw [mk_mem_zipIdx_iff_getElem?, getElem?_eq_getElem inside, isC]
  have passed := none_ (c, i) found
  simpa using passed

theorem take_one_drop {i : Nat} (here : srcLines[i]? = some line) :
    (srcLines.drop i).take 1 = [line] := by
  obtain ⟨inside, isLine⟩ := List.getElem?_eq_some_iff.mp here
  rw [drop_eq_getElem_cons inside, isLine]
  rfl

theorem applyLine_ok (ran : applyLine srcLines before line = .ok after) :
    LinesApplied srcLines [line] before after := by
  match line with
  | [] =>
    cases ran
    exact ⟨(append_nil _).symm, rfl, rfl, nofun⟩
  | c :: content =>
    by_cases context : c = ' '
    · rw [context, applyLine_context] at ran
      cases here : srcLines[before.srcIndex]? with
      | none =>
        rw [here] at ran
        cases ran
      | some source =>
        rw [here] at ran
        dsimp only at ran
        split_ifs at ran with mismatch
        cases ran
        rw [not_ne_iff.mp mismatch] at here
        rw [context]
        exact ⟨rfl, rfl, take_one_drop here, nofun⟩
    by_cases deletion : c = '-'
    · rw [deletion, applyLine_deletion] at ran
      cases here : srcLines[before.srcIndex]? with
      | none =>
        rw [here] at ran
        cases ran
      | some source =>
        rw [here] at ran
        dsimp only at ran
        split_ifs at ran with mismatch
        cases ran
        rw [not_ne_iff.mp mismatch] at here
        rw [deletion]
        exact ⟨(append_nil _).symm, rfl, take_one_drop here, nofun⟩
    by_cases insertion : c = '+'
    · subst insertion
      rw [applyLine_insertion] at ran
      cases clean : controlCharacter content with
      | some found =>
        rw [clean] at ran
        cases ran
      | none =>
        rw [clean] at ran
        cases ran
        refine ⟨rfl, rfl, rfl, ?_⟩
        intro line member
        rw [mem_singleton.mp member]
        exact insertable_of_controlCharacter clean
    · rw [applyLine_other context deletion insertion] at ran
      cases ran

theorem LinesApplied.cons {lines : List Line} (first : LinesApplied srcLines [line] before between)
    (rest : LinesApplied srcLines lines between after) :
    LinesApplied srcLines (line :: lines) before after := by
  have sources : (line :: lines).filterMap sourceLine?
      = [line].filterMap sourceLine? ++ lines.filterMap sourceLine? :=
    filterMap_append (l := [line])
  have results : (line :: lines).filterMap resultLine?
      = [line].filterMap resultLine? ++ lines.filterMap resultLine? :=
    filterMap_append (l := [line])
  have inserted : (line :: lines).filterMap insertedLine?
      = [line].filterMap insertedLine? ++ lines.filterMap insertedLine? :=
    filterMap_append (l := [line])
  constructor
  · rw [rest.result, first.result, results, append_assoc]
  · rw [rest.srcIndex, first.srcIndex, sources, length_append, Nat.add_assoc]
  · rw [sources, length_append, take_add, drop_drop, ← first.srcIndex,
      first.standFor, rest.standFor]
  · intro other member
    rw [inserted] at member
    rcases mem_append.mp member with here | later
    · exact first.insertable other here
    · exact rest.insertable other later

theorem applyLines_ok (lines : List Line) : ∀ {before after : Progress},
    lines.foldlM (applyLine srcLines) before = .ok after →
    LinesApplied srcLines lines before after := by
  induction lines with
  | nil =>
    intro before after ran
    cases ran
    exact ⟨(append_nil _).symm, rfl, rfl, nofun⟩
  | cons line lines rest =>
    intro before after ran
    obtain ⟨between, turn, others⟩ := bind_eq_ok.mp ran
    exact (applyLine_ok turn).cons (rest others)

/-- What one hunk did. -/
structure HunkApplied (srcLines : List Line) (hunk : Hunk) (before after : Progress) : Prop where
  behind : (before.srcIndex : Int) ≤ hunk.srcLine
  inside : hunk.srcLine + hunk.srcSpan ≤ srcLines.length
  result : after.result = before.result
    ++ (srcLines.drop before.srcIndex).take (hunk.srcLine.toNat - before.srcIndex)
    ++ hunk.resultLines
  srcIndex : (after.srcIndex : Int) = hunk.srcLine + hunk.srcSpan
  standFor : hunk.sourceLines = (srcLines.drop hunk.srcLine.toNat).take hunk.srcSpan.toNat
  insertable : ∀ line ∈ hunk.insertedLines, Insertable line

theorem applyHunk_ok (valid : validateHunk hunk = .ok ())
    (ran : applyHunk srcLines before hunk = .ok after) :
    HunkApplied srcLines hunk before after := by
  obtain ⟨span, _⟩ := validateHunk_ok valid
  unfold applyHunk at ran
  dsimp only at ran
  by_cases beyond : (srcLines.length : Int) < hunk.srcLine
  · rw [if_pos beyond] at ran
    cases ran
  by_cases order : hunk.srcLine < before.srcIndex
  · rw [if_neg beyond, if_pos order] at ran
    cases ran
  · rw [if_neg beyond, if_neg order] at ran
    obtain ⟨between, copied, applied⟩ := bind_eq_ok.mp ran
    rw [copyLines_eq _ (by omega)] at copied
    cases copied
    have lines := applyLines_ok hunk.lines applied
    have start : before.srcIndex + (hunk.srcLine - before.srcIndex).toNat = hunk.srcLine.toNat := by
      omega
    have taken : (hunk.srcLine - before.srcIndex).toNat = hunk.srcLine.toNat - before.srcIndex := by
      omega
    have spanNat : hunk.srcSpan.toNat = hunk.sourceLines.length := by omega
    have standFor : hunk.sourceLines
        = (srcLines.drop hunk.srcLine.toNat).take hunk.srcSpan.toNat := by
      rw [spanNat, ← start]
      exact lines.standFor.symm
    have fits : hunk.srcLine.toNat + hunk.sourceLines.length ≤ srcLines.length := by
      have lengths := congrArg List.length standFor
      rw [length_take, length_drop] at lengths
      omega
    have index := lines.srcIndex
    have result := lines.result
    rw [taken] at result
    refine ⟨by omega, by omega, result, ?_, standFor, lines.insertable⟩
    have sourceLength : (hunk.lines.filterMap sourceLine?).length = hunk.sourceLines.length := rfl
    dsimp only at index
    omega

/-- What the hunks did, one after the other. -/
structure HunksApplied (srcLines : List Line) (hunks : List Hunk) (before after : Progress) :
    Prop where
  behind : ∀ hunk ∈ hunks, (before.srcIndex : Int) ≤ hunk.srcLine
  inside : ∀ hunk ∈ hunks, 0 ≤ hunk.srcSpan ∧ hunk.srcLine + hunk.srcSpan ≤ srcLines.length
  inOrder : hunks.Pairwise fun first second => first.srcLine + first.srcSpan ≤ second.srcLine
  replaced : after.result ++ srcLines.drop after.srcIndex
    = before.result ++ replaceRanges srcLines before.srcIndex hunks
  standFor : ∀ hunk ∈ hunks, hunk.sourceLines
    = (srcLines.drop hunk.srcLine.toNat).take hunk.srcSpan.toNat
  insertable : ∀ hunk ∈ hunks, ∀ line ∈ hunk.insertedLines, Insertable line

theorem HunksApplied.cons (span : 0 ≤ hunk.srcSpan) {hunks : List Hunk}
    (first : HunkApplied srcLines hunk before between)
    (rest : HunksApplied srcLines hunks between after) :
    HunksApplied srcLines (hunk :: hunks) before after := by
  have index : between.srcIndex = (hunk.srcLine + hunk.srcSpan).toNat := by
    have := first.srcIndex
    omega
  constructor
  · intro other member
    rcases mem_cons.mp member with rfl | later
    · exact first.behind
    · have behind := rest.behind other later
      have := first.behind
      have := first.srcIndex
      omega
  · intro other member
    rcases mem_cons.mp member with rfl | later
    · exact ⟨span, first.inside⟩
    · exact rest.inside other later
  · rw [pairwise_cons]
    refine ⟨?_, rest.inOrder⟩
    intro other later
    rw [← first.srcIndex]
    exact rest.behind other later
  · rw [rest.replaced, first.result, replaceRanges, index]
    simp only [append_assoc]
  · intro other member
    rcases mem_cons.mp member with rfl | later
    · exact first.standFor
    · exact rest.standFor other later
  · intro other member
    rcases mem_cons.mp member with rfl | later
    · exact first.insertable
    · exact rest.insertable other later

theorem applyHunks_ok (hunks : List Hunk) : ∀ {before after : Progress},
    (∀ hunk ∈ hunks, validateHunk hunk = .ok ()) →
    hunks.foldlM (applyHunk srcLines) before = .ok after →
    HunksApplied srcLines hunks before after := by
  induction hunks with
  | nil =>
    intro before after _ ran
    cases ran
    exact ⟨nofun, nofun, .nil, rfl, nofun, nofun⟩
  | cons hunk hunks rest =>
    intro before after valid ran
    obtain ⟨between, turn, others⟩ := bind_eq_ok.mp ran
    have validHere := valid hunk mem_cons_self
    have span : 0 ≤ hunk.srcSpan := by
      rw [(validateHunk_ok validHere).1]
      exact Int.natCast_nonneg _
    exact (rest (fun other member => valid other (mem_cons_of_mem hunk member)) others).cons
      span (applyHunk_ok validHere turn)

theorem length_replaceRanges (hunks : List Hunk) : ∀ {pos : Nat}, pos ≤ srcLines.length →
    (∀ hunk ∈ hunks, (pos : Int) ≤ hunk.srcLine) →
    (∀ hunk ∈ hunks, 0 ≤ hunk.srcSpan ∧ hunk.srcLine + hunk.srcSpan ≤ srcLines.length) →
    hunks.Pairwise (fun first second => first.srcLine + first.srcSpan ≤ second.srcLine) →
    (∀ hunk ∈ hunks, hunk.dstSpan = hunk.resultLines.length) →
    ((replaceRanges srcLines pos hunks).length : Int)
      = srcLines.length - pos + (hunks.map fun hunk => hunk.dstSpan - hunk.srcSpan).sum := by
  induction hunks with
  | nil =>
    intro pos inside _ _ _ _
    rw [replaceRanges, length_drop, map_nil, sum_nil]
    omega
  | cons hunk hunks rest =>
    intro pos inside behind insides inOrder spans
    obtain ⟨before, inOrder⟩ := pairwise_cons.mp inOrder
    have behindHere := behind hunk mem_cons_self
    have insideHere := insides hunk mem_cons_self
    have spanHere := spans hunk mem_cons_self
    have later := @rest (hunk.srcLine + hunk.srcSpan).toNat (by omega)
      (fun other member => by
        have := before other member
        omega)
      (fun other member => insides other (mem_cons_of_mem hunk member)) inOrder
      (fun other member => spans other (mem_cons_of_mem hunk member))
    rw [replaceRanges, length_append, length_append, length_take,
      length_drop, map_cons, sum_cons]
    push_cast
    omega

end Source

/-! ## Accepted diffs -/

/-- The lines of the text with the ranges replaced have no line break. -/
theorem replaceRanges_oneLine (clean : ∀ hunk ∈ hunks,
    ∀ line ∈ hunk.resultLines, OneLine line) : ∀ pos : Nat,
    ∀ line ∈ replaceRanges (src.splitOn '\n') pos hunks, OneLine line := by
  induction hunks with
  | nil =>
    intro pos line member
    exact oneLine_of_split (mem_of_mem_drop member)
  | cons hunk hunks rest =>
    intro pos line member
    rw [replaceRanges] at member
    rcases mem_append.mp member with first | later
    · rcases mem_append.mp first with copied | own
      · exact oneLine_of_split (mem_of_mem_drop (mem_of_mem_take copied))
      · exact clean hunk mem_cons_self line own
    · exact rest (fun other inside => clean other (mem_cons_of_mem hunk inside)) _ line later

/-- A result line is a source line or an inserted one. -/
theorem Hunk.mem_resultLines {line : Line} (member : line ∈ hunk.resultLines) :
    line ∈ hunk.sourceLines ∨ line ∈ hunk.insertedLines := by
  obtain ⟨whole, inLines, isLine⟩ := mem_filterMap.mp member
  unfold resultLine? at isLine
  split at isLine
  · cases isLine
    exact .inl (mem_filterMap.mpr ⟨_, inLines, rfl⟩)
  · cases isLine
    exact .inr (mem_filterMap.mpr ⟨_, inLines, rfl⟩)
  · cases isLine

theorem applyHunks_amended (valid : ∀ hunk ∈ hunks, validateHunk hunk = .ok ())
    (ran : applyHunks src hunks = .ok result) : Amended (src.splitOn '\n') hunks result := by
  obtain ⟨progress, loop, same⟩ := bind_eq_ok.mp ran
  cases same
  have applied := applyHunks_ok hunks valid loop
  have replaced := applied.replaced
  rw [nil_append] at replaced
  have behind : ∀ hunk ∈ hunks, 0 ≤ hunk.srcLine := applied.behind
  refine ⟨?_, applied.inOrder, replaced, ?_, applied.standFor, applied.insertable⟩
  · intro hunk member
    exact ⟨behind hunk member, applied.inside hunk member⟩
  · rw [replaced, length_replaceRanges hunks (Nat.zero_le _) applied.behind applied.inside
      applied.inOrder (fun hunk member => (validateHunk_ok (valid hunk member)).2)]
    simp

theorem Amended.oneLine (amended : Amended (src.splitOn '\n') hunks result) :
    ∀ line ∈ result, OneLine line := by
  rw [amended.replaced]
  apply replaceRanges_oneLine
  intro hunk member line inResult
  rcases Hunk.mem_resultLines inResult with source | inserted
  · rw [amended.standFor hunk member] at source
    exact oneLine_of_split (mem_of_mem_drop (mem_of_mem_take source))
  · exact .of_insertable (amended.insertable hunk member line inserted)

/-- Of the control characters other than tabs the check lets through the second block. -/
theorem Insertable.clean_iff {line : Line} (insertable : Insertable line) :
    (∀ c ∈ line, isControl c = true → c = '\t')
      ↔ ∀ c ∈ line, ¬ (0x80 ≤ c.toNat ∧ c.toNat ≤ 0x9F) := by
  constructor
  · intro clean c member second
    have isTab := clean c member (by simp [isControl]; omega)
    rw [isTab] at second
    exact absurd second (by decide)
  · intro outside c member control
    obtain ⟨notFirst, notDelete⟩ := insertable c member
    have notSecond := outside c member
    simp only [isControl, Bool.or_eq_true, Bool.and_eq_true, decide_eq_true_eq] at control
    by_contra notTab
    have : ¬ c.toNat < 32 := fun first => notFirst ⟨first, notTab⟩
    omega

/-- Every index is in range, and an accepted diff changes what its hunks say. The lines of the
text are the announced ones exactly if there is a line left and no inserted line has one of the
control characters U+0080 to U+009F. -/
theorem accepted_diff_changes_its_ranges_iff (src diffStr : Text) :
    applyUnifiedDiffGo src diffStr ≠ .error .outOfRange
      ∧ ∀ text, applyUnifiedDiffGo src diffStr = .ok text →
        ∃ hunks result, parseUnifiedDiffGo diffStr = .ok hunks
          ∧ Amended (src.splitOn '\n') hunks result
          ∧ text = ['\n'].intercalate result
          ∧ (AsAnnounced src hunks text
            ↔ 0 < announcedCount src hunks
              ∧ ∀ hunk ∈ hunks, ∀ line ∈ hunk.insertedLines,
                ∀ c ∈ line, ¬ (0x80 ≤ c.toNat ∧ c.toNat ≤ 0x9F)) := by
  rw [applyUnifiedDiffGo_eq, parseUnifiedDiffGo_eq]
  constructor
  · cases applyUnifiedDiff src diffStr <;> nofun
  · intro text ran
    obtain ⟨hunks, parsed, rest⟩ := bind_eq_ok.mp (mapError_eq_ok.mp ran)
    obtain ⟨result, applied, same⟩ := bind_eq_ok.mp rest
    cases same
    have amended := applyHunks_amended (parseUnifiedDiff_validated parsed) applied
    refine ⟨hunks, result, ?_, amended, rfl, ?_⟩
    · rw [parsed]
      rfl
    constructor
    · rintro ⟨fully, clean⟩
      refine ⟨?_, fun hunk member line inserted =>
        (amended.insertable hunk member line inserted).clean_iff.mp
          (clean hunk member line inserted)⟩
      have some_ := length_pos_of_ne_nil (splitOn_ne_nil '\n' (['\n'].intercalate result))
      rw [announcedCount, ← fully.count]
      exact Int.natCast_pos.mpr some_
    · rintro ⟨positive, outside⟩
      have nonempty : result ≠ [] := by
        intro empty
        rw [announcedCount, ← amended.count, empty] at positive
        exact absurd positive (by decide)
      refine ⟨?_, fun hunk member line inserted =>
        (amended.insertable hunk member line inserted).clean_iff.mpr
          (outside hunk member line inserted)⟩
      rw [splitOn_intercalate '\n' amended.oneLine nonempty]
      exact amended

/-- A replaced line. -/
theorem replaced_line_changes_its_range :
    ∃ hunks, parseUnifiedDiffGo "@@ -2 +2 @@\n-b\n+c".toList = .ok hunks
      ∧ AsAnnounced "a\nb".toList hunks "a\nc".toList := by
  obtain ⟨hunks, result, parsed, _, _, exact_⟩ := (accepted_diff_changes_its_ranges_iff
    "a\nb".toList "@@ -2 +2 @@\n-b\n+c".toList).2 "a\nc".toList (by decide +kernel)
  have read : parseUnifiedDiffGo "@@ -2 +2 @@\n-b\n+c".toList
      = .ok [⟨1, 1, 1, 1, ["-b".toList, "+c".toList]⟩] := by decide +kernel
  cases parsed.symm.trans read
  exact ⟨_, read, exact_.mpr ⟨by decide, by simp [Hunk.insertedLines, insertedLine?]⟩⟩

/-- A diff that inserts the control characters U+009B and U+0085 is accepted; and a diff that
deletes every line, announcing none, leaves a text of one empty line. -/
theorem accepted_diffs_go_beyond_their_hunks :
    (∃ hunks, parseUnifiedDiffGo "@@ -1 +1 @@\n-a\n+x\u009b31m\u0085y".toList = .ok hunks
      ∧ applyUnifiedDiffGo "a".toList "@@ -1 +1 @@\n-a\n+x\u009b31m\u0085y".toList
        = .ok "x\u009b31m\u0085y".toList
      ∧ ¬ AsAnnounced "a".toList hunks "x\u009b31m\u0085y".toList)
    ∧ ∃ hunks, parseUnifiedDiffGo "@@ -1 +0,0 @@\n-a".toList = .ok hunks
      ∧ applyUnifiedDiffGo "a".toList "@@ -1 +0,0 @@\n-a".toList = .ok []
      ∧ ¬ AsAnnounced "a".toList hunks [] := by
  constructor
  · refine ⟨[⟨0, 1, 0, 1, ["-a".toList, "+x\u009b31m\u0085y".toList]⟩], by decide +kernel,
      by decide +kernel, fun announced => ?_⟩
    have isTab := announced.clean _ mem_cons_self "x\u009b31m\u0085y".toList (by decide)
      '\u009b' (by decide) (by decide)
    exact absurd isTab (by decide)
  · refine ⟨[⟨0, 1, -1, 0, ["-a".toList]⟩], by decide +kernel, by decide +kernel,
      fun announced => ?_⟩
    exact absurd announced.amended.count (by decide +kernel)

end AtomOneSdk.UnifiedDiff
