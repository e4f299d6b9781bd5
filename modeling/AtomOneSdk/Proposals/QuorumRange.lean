import AtomOneSdk.Proposals.Quorum
import AtomOneSdk.Proposals.ThrottlerProperties

/-!
Contract: the averages of participation and the dynamic quorum stay in their ranges.

Owns: what one update does to an average, what accepted parameters say about ranges and
thresholds, and both along every run of finished proposals and parameter updates.

Does **not** own: that a tally finds a participation between zero and one.
-/

namespace AtomOneSdk.Proposals

open Lib Lib.Action
open Authz (ProposalKind)

def InUnit (value : BoundedDec) : Prop := 0 ≤ value.units ∧ value.units ≤ Dec.one

/-! ## Products with a part of one -/

theorem mul_inUnit {part factor : BoundedDec} (inUnit : InUnit part) (nonneg : 0 ≤ factor.units) :
    ∃ product, part.mul factor = some product ∧ 0 ≤ product.units
      ∧ product.units ≤ factor.units := by
  have low : 0 ≤ Dec.mul part.units factor.units :=
    roundHalfEven_nonneg Dec.one_pos (mul_nonneg inUnit.1 nonneg)
  have high : Dec.mul part.units factor.units ≤ factor.units := by
    apply roundHalfEven_le Dec.one_pos
    rw [mul_comm]
    exact mul_le_mul_of_nonneg_left inUnit.2 nonneg
  have fits : (Dec.mul part.units factor.units).natAbs < decLimit := by
    have := factor.fits
    omega
  obtain ⟨product, isProduct, units⟩ := BoundedDec.exists_ofUnits? fits
  rw [← units] at low high
  exact ⟨product, isProduct, low, high⟩

theorem add_inUnit {left right : BoundedDec} (leftNonneg : 0 ≤ left.units)
    (rightNonneg : 0 ≤ right.units) (small : left.units + right.units ≤ Dec.one) :
    ∃ sum, left.add right = some sum ∧ sum.units = left.units + right.units := by
  have one : Dec.one.natAbs < decLimit := by decide
  exact BoundedDec.exists_ofUnits? (by omega)

/-- An average of parts of one is a part of one. -/
theorem nextEma_inUnit {oldValue newValue : BoundedDec} (oldIn : InUnit oldValue)
    (newIn : InUnit newValue) : ∃ next, nextEma oldValue newValue = some next ∧ InUnit next := by
  obtain ⟨kept, isKept, keptLow, keptHigh⟩ :=
    @mul_inUnit oldValue emaOldWeight oldIn (by decide)
  obtain ⟨added, isAdded, addedLow, addedHigh⟩ :=
    @mul_inUnit newValue emaNewWeight newIn (by decide)
  have weights : emaOldWeight.units + emaNewWeight.units = Dec.one := rfl
  obtain ⟨next, isNext, units⟩ := add_inUnit keptLow addedLow (by omega)
  refine ⟨next, ?_, by omega, by omega⟩
  simp only [nextEma, isKept, isAdded, some_bind, isNext]

/-! ## Quorum of a range -/

/-- A range that validation accepts. -/
structure RangeOk (minQuorum maxQuorum : BoundedDec) : Prop where
  nonneg : 0 ≤ minQuorum.units
  ordered : minQuorum.units ≤ maxQuorum.units
  atMostOne : maxQuorum.units ≤ Dec.one

section Range

variable {minQuorum maxQuorum : BoundedDec} (range : RangeOk minQuorum maxQuorum)

include range

/-- The quorum is the minimum plus a rounded part of the width. -/
theorem computeQuorum_eq {ema : BoundedDec} (inUnit : InUnit ema) :
    ∃ quorum, computeQuorum ema minQuorum maxQuorum = some quorum
      ∧ quorum.units
          = minQuorum.units + Dec.mul (maxQuorum.units - minQuorum.units) ema.units
      ∧ minQuorum.units ≤ quorum.units ∧ quorum.units ≤ maxQuorum.units := by
  have nonneg := range.nonneg
  have ordered := range.ordered
  have atMostOne := range.atMostOne
  have one : Dec.one.natAbs < decLimit := by decide
  obtain ⟨width, isWidth, widthUnits⟩ :=
    @BoundedDec.exists_ofUnits? (maxQuorum.units - minQuorum.units) (by omega)
  have widthNonneg : 0 ≤ width.units := by omega
  obtain ⟨part, isPart, partLow, partHigh⟩ := mul_inUnit inUnit widthNonneg
  have swapped : width.mul ema = some part := by
    rw [BoundedDec.mul, Dec.mul, mul_comm]
    exact isPart
  obtain ⟨quorum, isQuorum, units⟩ := add_inUnit nonneg partLow (by omega)
  refine ⟨quorum, ?_, ?_, by omega, by omega⟩
  · have subtracted : maxQuorum.sub minQuorum = some width := isWidth
    simp only [computeQuorum, subtracted, swapped, some_bind, isQuorum]
  · rw [units, BoundedDec.units_mul swapped, widthUnits]

theorem computeQuorum_mono {ema ema' quorum quorum' : BoundedDec} (inUnit : InUnit ema)
    (inUnit' : InUnit ema') (ordered : ema.units ≤ ema'.units)
    (found : computeQuorum ema minQuorum maxQuorum = some quorum)
    (found' : computeQuorum ema' minQuorum maxQuorum = some quorum') :
    quorum.units ≤ quorum'.units := by
  obtain ⟨_, isQuorum, units, _⟩ := computeQuorum_eq range inUnit
  obtain ⟨_, isQuorum', units', _⟩ := computeQuorum_eq range inUnit'
  rw [found] at isQuorum
  rw [found'] at isQuorum'
  cases isQuorum
  cases isQuorum'
  have widthNonneg : 0 ≤ maxQuorum.units - minQuorum.units := by
    have := range.ordered
    omega
  have mono : Dec.mul (maxQuorum.units - minQuorum.units) ema.units
      ≤ Dec.mul (maxQuorum.units - minQuorum.units) ema'.units :=
    roundHalfEven_mono Dec.one_pos (mul_le_mul_of_nonneg_left ordered widthNonneg)
  omega

end Range

/-! ## Accepted parameters -/

/-- The range of the quorum of a kind. -/
def Params.quorumRangeOf (p : Params) : ProposalKind → Option QuorumRange
  | .any => p.quorumRange
  | .law => p.lawQuorumRange
  | .constitutionAmendment => p.constitutionAmendmentQuorumRange

/-- The average of the participation in proposals of a kind. -/
def ParticipationEmas.of (emas : ParticipationEmas) : ProposalKind → Option BoundedDec
  | .any => emas.participation
  | .law => emas.law
  | .constitutionAmendment => emas.constitutionAmendment

def quorumOf (p : Params) (emas : ParticipationEmas) : ProposalKind → Option BoundedDec
  | .any => getQuorum p emas
  | .law => getLawQuorum p emas
  | .constitutionAmendment => getConstitutionAmendmentQuorum p emas

/-- The threshold of a kind; an endorsed law has the default one. -/
def thresholdOf (p : Params) (endorsed : Bool) : ProposalKind → Option BoundedDec
  | .any => p.threshold
  | .law => if endorsed then p.threshold else p.lawThreshold
  | .constitutionAmendment => p.constitutionAmendmentThreshold

theorem quorumOf_eq (p : Params) (emas : ParticipationEmas) (kind : ProposalKind) :
    quorumOf p emas kind = quorumInRange (emas.of kind) (p.quorumRangeOf kind) := by
  cases kind <;> rfl

variable {label : String} {p : Params} {kinds : List ProposalKind} {kind : ProposalKind}
  {participation : BoundedDec}

theorem validateQuorum_ok {quorum : DecStr} {value : BoundedDec}
    (passed : validateQuorum label quorum = .ok value) :
    quorum = some value ∧ 0 ≤ value.units ∧ value.units ≤ Dec.one := by
  simp only [validateQuorum, bind_eq_ok, Check.require_ok, Check.reject_ok, not_lt] at passed
  obtain ⟨found, isFound, _, nonneg, _, atMostOne, same⟩ := passed
  cases same
  exact ⟨isFound, nonneg, atMostOne⟩

theorem validateQuorumBounds_ok {range : QuorumRange} {bounds : BoundedDec × BoundedDec}
    (passed : validateQuorumBounds label range = .ok bounds)
    (ordered : bounds.1.units ≤ bounds.2.units) :
    range.min = some bounds.1 ∧ range.max = some bounds.2 ∧ RangeOk bounds.1 bounds.2 := by
  simp only [validateQuorumBounds, bind_eq_ok] at passed
  obtain ⟨minQuorum, minPassed, maxQuorum, maxPassed, same⟩ := passed
  cases same
  obtain ⟨isMin, nonneg, _⟩ := validateQuorum_ok minPassed
  obtain ⟨isMax, _, atMostOne⟩ := validateQuorum_ok maxPassed
  exact ⟨isMin, isMax, nonneg, ordered, atMostOne⟩

theorem Check.deref_ok {α : Type} {pointer : Option α} {found : α} :
    Check.deref pointer = .ok found ↔ pointer = some found := by
  cases pointer with
  | none => exact ⟨(nomatch ·), (nomatch ·)⟩
  | some value =>
    constructor
    · intro same
      cases same
      rfl
    · intro same
      cases same
      rfl

def HasRange (range : Option QuorumRange) (minQuorum maxQuorum : BoundedDec) : Prop :=
  ∃ found, range = some found ∧ found.min = some minQuorum ∧ found.max = some maxQuorum

theorem validateQuorumRanges_ok (passed : validateQuorumRanges p = .ok ()) (kind : ProposalKind) :
    ∃ minQuorum maxQuorum, HasRange (p.quorumRangeOf kind) minQuorum maxQuorum
      ∧ RangeOk minQuorum maxQuorum := by
  simp only [validateQuorumRanges, bind_eq_ok, Check.deref_ok, Check.reject_ok, not_lt] at passed
  obtain ⟨quorumRange, hasQuorum, amendmentRange, hasAmendment, lawRange, hasLaw, quorum,
    quorumPassed, amendment, amendmentPassed, law, lawPassed, _, quorumOrdered, _,
    amendmentOrdered, lawOrdered⟩ := passed
  cases kind with
  | any =>
    obtain ⟨isMin, isMax, ok⟩ := validateQuorumBounds_ok quorumPassed quorumOrdered
    exact ⟨_, _, ⟨quorumRange, hasQuorum, isMin, isMax⟩, ok⟩
  | law =>
    obtain ⟨isMin, isMax, ok⟩ := validateQuorumBounds_ok lawPassed lawOrdered
    exact ⟨_, _, ⟨lawRange, hasLaw, isMin, isMax⟩, ok⟩
  | constitutionAmendment =>
    obtain ⟨isMin, isMax, ok⟩ := validateQuorumBounds_ok amendmentPassed amendmentOrdered
    exact ⟨_, _, ⟨amendmentRange, hasAmendment, isMin, isMax⟩, ok⟩

theorem validateThresholds_ok {values : BoundedDec × BoundedDec × BoundedDec}
    (passed : validateThresholds p = .ok values) :
    p.threshold = some values.1 ∧ p.constitutionAmendmentThreshold = some values.2.1
      ∧ p.lawThreshold = some values.2.2 := by
  have parsed : ∀ {name label : String} {threshold : DecStr} {value : BoundedDec},
      validateThreshold name label threshold = .ok value → threshold = some value := by
    intro name label threshold value isValue
    simp only [validateThreshold, bind_eq_ok, Check.require_ok] at isValue
    obtain ⟨found, isFound, _, _, _, _, same⟩ := isValue
    cases same
    exact isFound
  simp only [validateThresholds, bind_eq_ok] at passed
  obtain ⟨threshold, isThreshold, amendment, isAmendment, _, _, law, isLaw, _, _, _, _, same⟩ :=
    passed
  cases same
  exact ⟨parsed isThreshold, parsed isAmendment, parsed isLaw⟩

/-- Ranges and thresholds of accepted parameters. -/
structure QuorumParamsOk (p : Params) : Prop where
  range : ∀ kind, ∃ minQuorum maxQuorum, HasRange (p.quorumRangeOf kind) minQuorum maxQuorum
    ∧ RangeOk minQuorum maxQuorum
  threshold : ∃ value, p.threshold = some value
  amendmentThreshold : ∃ value, p.constitutionAmendmentThreshold = some value
  lawThreshold : ∃ value, p.lawThreshold = some value

theorem QuorumParamsOk.of_validateBasic (valid : p.validateBasic = .ok ()) :
    QuorumParamsOk p := by
  simp only [Params.validateBasic, bind_eq_ok] at valid
  obtain ⟨_, _, _, _, _, _, _, rangesPassed, values, thresholdsPassed, _⟩ := valid
  obtain ⟨hasThreshold, hasAmendment, hasLaw⟩ := validateThresholds_ok thresholdsPassed
  exact ⟨validateQuorumRanges_ok rangesPassed, ⟨_, hasThreshold⟩, ⟨_, hasAmendment⟩, ⟨_, hasLaw⟩⟩

/-! ## One state -/

/-- The three averages are stored and parts of one. -/
def EmasOk (emas : ParticipationEmas) : Prop :=
  ∀ kind, ∃ ema, emas.of kind = some ema ∧ InUnit ema

theorem updateEma_ok (inUnit : InUnit participation) {current : Option BoundedDec}
    (ok : ∃ ema, current = some ema ∧ InUnit ema) :
    ∃ next, updateEma kinds kind participation current = some next
      ∧ ∃ ema, next = some ema ∧ InUnit ema := by
  obtain ⟨ema, isEma, emaIn⟩ := ok
  unfold updateEma
  split_ifs with ofKind
  · obtain ⟨next, isNext, nextIn⟩ := nextEma_inUnit emaIn inUnit
    refine ⟨some next, ?_, next, rfl, nextIn⟩
    rw [isEma]
    simp only [some_bind, isNext]
    rfl
  · exact ⟨current, rfl, ema, isEma, emaIn⟩

/-- A finished proposal of any kinds leaves the averages parts of one. -/
theorem updateParticipationEMA_ok (inUnit : InUnit participation) {emas : ParticipationEmas}
    (ok : EmasOk emas) :
    ∃ next, updateParticipationEMA kinds participation emas = some next ∧ EmasOk next := by
  obtain ⟨amendment, isAmendment, amendmentOk⟩ :=
    @updateEma_ok kinds .constitutionAmendment participation inUnit _ (ok .constitutionAmendment)
  obtain ⟨law, isLaw, lawOk⟩ := @updateEma_ok kinds .law participation inUnit _ (ok .law)
  obtain ⟨any, isAny, anyOk⟩ := @updateEma_ok kinds .any participation inUnit _ (ok .any)
  have foundAmendment : updateEma kinds .constitutionAmendment participation
      emas.constitutionAmendment = some amendment := isAmendment
  have foundLaw : updateEma kinds .law participation emas.law = some law := isLaw
  have foundAny : updateEma kinds .any participation emas.participation = some any := isAny
  refine ⟨⟨any, amendment, law⟩, ?_, ?_⟩
  · simp only [updateParticipationEMA, foundAmendment, foundLaw, foundAny, some_bind]
    rfl
  · intro kind
    cases kind with
    | any => exact anyOk
    | law => exact lawOk
    | constitutionAmendment => exact amendmentOk

/-- The quorum of every kind lies in its range. -/
theorem quorumOf_inRange (params : QuorumParamsOk p) {emas : ParticipationEmas} (ok : EmasOk emas)
    (kind : ProposalKind) :
    ∃ minQuorum maxQuorum quorum, HasRange (p.quorumRangeOf kind) minQuorum maxQuorum
      ∧ quorumOf p emas kind = some quorum
      ∧ minQuorum.units ≤ quorum.units ∧ quorum.units ≤ maxQuorum.units := by
  obtain ⟨minQuorum, maxQuorum, has, range⟩ := params.range kind
  obtain ⟨ema, isEma, emaIn⟩ := ok kind
  obtain ⟨quorum, isQuorum, _, low, high⟩ := computeQuorum_eq range emaIn
  refine ⟨minQuorum, maxQuorum, quorum, has, ?_, low, high⟩
  obtain ⟨found, isFound, isMin, isMax⟩ := has
  simp only [quorumOf_eq, quorumInRange, isFound, isMin, isMax, isEma, some_bind, isQuorum]

/-- The quorum of a kind does not fall when its average rises. -/
theorem quorumOf_mono (params : QuorumParamsOk p) {emas emas' : ParticipationEmas}
    {ema ema' quorum quorum' : BoundedDec} (isEma : emas.of kind = some ema)
    (isEma' : emas'.of kind = some ema') (inUnit : InUnit ema) (inUnit' : InUnit ema')
    (ordered : ema.units ≤ ema'.units) (isQuorum : quorumOf p emas kind = some quorum)
    (isQuorum' : quorumOf p emas' kind = some quorum') : quorum.units ≤ quorum'.units := by
  obtain ⟨minQuorum, maxQuorum, ⟨found, isFound, isMin, isMax⟩, range⟩ := params.range kind
  simp only [quorumOf_eq, quorumInRange, isFound, isMin, isMax, isEma, isEma',
    some_bind] at isQuorum isQuorum'
  exact computeQuorum_mono range inUnit inUnit' ordered isQuorum isQuorum'

theorem le_raisedTo (current other : BoundedDec) :
    current.units ≤ (raisedTo current other).units
      ∧ other.units ≤ (raisedTo current other).units := by
  unfold raisedTo
  split_ifs with below
  · exact ⟨below.le, le_refl _⟩
  · exact ⟨le_refl _, not_lt.mp below⟩

/-- Raising never lowers, and reaches the values of the kind if the proposal is of it. -/
theorem raisedForKind_spec (kinds : List ProposalKind) (kind : ProposalKind)
    (current : BoundedDec × BoundedDec) (quorum threshold : BoundedDec) :
    ∃ result, raisedForKind kinds kind (some quorum) (some threshold) current = some result
      ∧ current.1.units ≤ result.1.units ∧ current.2.units ≤ result.2.units
      ∧ (kind ∈ kinds → quorum.units ≤ result.1.units ∧ threshold.units ≤ result.2.units) := by
  unfold raisedForKind
  split_ifs with ofKind
  · obtain ⟨quorumKept, quorumReached⟩ := le_raisedTo current.1 quorum
    obtain ⟨thresholdKept, thresholdReached⟩ := le_raisedTo current.2 threshold
    exact ⟨_, rfl, quorumKept, thresholdKept, fun _ => ⟨quorumReached, thresholdReached⟩⟩
  · exact ⟨current, rfl, le_refl _, le_refl _, fun present => absurd present ofKind⟩

/-- A proposal is measured by at least the quorum and threshold of each of its kinds. -/
theorem getQuorumAndThreshold_spec (params : QuorumParamsOk p) {emas : ParticipationEmas}
    (ok : EmasOk emas) (kinds : List ProposalKind) (endorsed : Bool) :
    ∃ quorum threshold, getQuorumAndThreshold p emas kinds endorsed = some (quorum, threshold)
      ∧ ∀ kind ∈ kinds, ∃ kindQuorum kindThreshold, quorumOf p emas kind = some kindQuorum
          ∧ thresholdOf p endorsed kind = some kindThreshold
          ∧ kindQuorum.units ≤ quorum.units ∧ kindThreshold.units ≤ threshold.units := by
  obtain ⟨_, _, anyQuorum, _, isAny, _, _⟩ := quorumOf_inRange params ok .any
  obtain ⟨_, _, lawQuorum, _, isLaw, _, _⟩ := quorumOf_inRange params ok .law
  obtain ⟨_, _, amendmentQuorum, _, isAmendment, _, _⟩ :=
    quorumOf_inRange params ok .constitutionAmendment
  obtain ⟨anyThreshold, hasAny⟩ := params.threshold
  obtain ⟨amendmentThreshold, hasAmendment⟩ := params.amendmentThreshold
  obtain ⟨lawThreshold, hasLaw⟩ := params.lawThreshold
  have lawIs : lawThresholdOf p endorsed
      = some (if endorsed then anyThreshold else lawThreshold) := by
    cases endorsed <;> simp [lawThresholdOf, hasLaw, hasAny]
  obtain ⟨first, isFirst, firstQuorum, firstThreshold, forAmendment⟩ :=
    raisedForKind_spec kinds .constitutionAmendment (anyQuorum, anyThreshold) amendmentQuorum
      amendmentThreshold
  obtain ⟨last, isLast, lastQuorum, lastThreshold, forLaw⟩ :=
    raisedForKind_spec kinds .law first lawQuorum
      (if endorsed then anyThreshold else lawThreshold)
  have anyIs : getQuorum p emas = some anyQuorum := isAny
  have lawQuorumIs : getLawQuorum p emas = some lawQuorum := isLaw
  have amendmentIs : getConstitutionAmendmentQuorum p emas = some amendmentQuorum := isAmendment
  refine ⟨last.1, last.2, ?_, ?_⟩
  · simp only [getQuorumAndThreshold, anyIs, hasAny, amendmentIs, hasAmendment, isFirst,
      lawQuorumIs, lawIs, isLast, some_bind]
  · intro kind present
    cases kind with
    | any =>
      exact ⟨anyQuorum, anyThreshold, isAny, hasAny, firstQuorum.trans lastQuorum,
        firstThreshold.trans lastThreshold⟩
    | law =>
      refine ⟨lawQuorum, if endorsed then anyThreshold else lawThreshold, isLaw, ?_,
        (forLaw present).1, (forLaw present).2⟩
      cases endorsed <;> simp [thresholdOf, hasLaw, hasAny]
    | constitutionAmendment =>
      exact ⟨amendmentQuorum, amendmentThreshold, isAmendment, hasAmendment,
        (forAmendment present).1.trans lastQuorum, (forAmendment present).2.trans lastThreshold⟩

/-! ## Runs -/

/-- The parameters and averages of a chain. -/
structure QuorumChain where
  params : Params
  emas : ParticipationEmas
deriving DecidableEq

/-- A proposal with its messages is finished, or parameters are proposed. -/
inductive QuorumOp (M : Type) where
  | finished (messages : List M) (participation : BoundedDec)
  | updateParams (params : Params)

section Run

variable {M : Type} (kindOf : M → ProposalKind)

def QuorumOp.exec : QuorumOp M → Action String QuorumChain Unit
  | .finished messages participation => do
    let chain ← get
    let next ← getOrCrash
      (updateParticipationEMA (kindsOf kindOf messages) participation chain.emas)
      "failed to update the participation average"
    set { chain with emas := next }
  | .updateParams params => do
    let chain ← get
    match params.validateBasic with
    | .ok () => set { chain with params := params }
    | .error fault => throw fault

/-- Participations are parts of one; any parameters may be proposed. -/
def QuorumOp.Accepted : QuorumOp M → Prop
  | .finished _ participation => InUnit participation
  | .updateParams _ => True

/-- What holds in every state of a run. -/
structure QuorumSound (chain : QuorumChain) : Prop where
  /-- The averages are parts of one, and a further proposal does not make the update panic. -/
  emas : EmasOk chain.emas
  updates : ∀ (messages : List M) participation, InUnit participation →
    ∃ next, updateParticipationEMA (kindsOf kindOf messages) participation chain.emas = some next
      ∧ EmasOk next
  inRange : ∀ kind, ∃ minQuorum maxQuorum quorum,
    HasRange (chain.params.quorumRangeOf kind) minQuorum maxQuorum
      ∧ quorumOf chain.params chain.emas kind = some quorum
      ∧ minQuorum.units ≤ quorum.units ∧ quorum.units ≤ maxQuorum.units
  monotone : ∀ kind (emas emas' : ParticipationEmas) (ema ema' quorum quorum' : BoundedDec),
    emas.of kind = some ema → emas'.of kind = some ema' → InUnit ema → InUnit ema' →
    ema.units ≤ ema'.units → quorumOf chain.params emas kind = some quorum →
    quorumOf chain.params emas' kind = some quorum' → quorum.units ≤ quorum'.units
  chosen : ∀ (messages : List M) (endorsed : Bool), ∃ quorum threshold,
    getQuorumAndThreshold chain.params chain.emas (kindsOf kindOf messages) endorsed
        = some (quorum, threshold)
      ∧ ∀ kind ∈ kindsOf kindOf messages, ∃ kindQuorum kindThreshold,
          quorumOf chain.params chain.emas kind = some kindQuorum
            ∧ thresholdOf chain.params endorsed kind = some kindThreshold
            ∧ kindQuorum.units ≤ quorum.units ∧ kindThreshold.units ≤ threshold.units

/-- The invariant of the run. -/
structure QuorumInvariant (chain : QuorumChain) : Prop where
  params : QuorumParamsOk chain.params
  emas : EmasOk chain.emas

theorem QuorumInvariant.sound {chain : QuorumChain} (held : QuorumInvariant chain) :
    QuorumSound kindOf chain where
  emas := held.emas
  updates := fun _ _ inUnit => updateParticipationEMA_ok inUnit held.emas
  inRange := quorumOf_inRange held.params held.emas
  monotone := by
    intro kind emas emas' ema ema' quorum quorum' isEma isEma' inUnit inUnit' ordered isQuorum
      isQuorum'
    exact quorumOf_mono held.params isEma isEma' inUnit inUnit' ordered isQuorum isQuorum'
  chosen := fun _ endorsed => getQuorumAndThreshold_spec held.params held.emas _ endorsed

theorem QuorumOp.exec_keeps {op : QuorumOp M} (accepted : op.Accepted) {chain : QuorumChain}
    (held : QuorumInvariant chain) :
    Ensures (op.exec kindOf) chain fun _ => QuorumInvariant := by
  cases op with
  | finished messages participation =>
    obtain ⟨next, isNext, nextOk⟩ :=
      @updateParticipationEMA_ok (kindsOf kindOf messages) participation accepted _ held.emas
    simp only [QuorumOp.exec, post_rules, isNext, Option.some.injEq, forall_eq']
    exact ⟨held.params, nextOk⟩
  | updateParams params =>
    simp only [QuorumOp.exec, post_rules]
    cases checked : params.validateBasic with
    | error fault => exact trivial
    | ok done => exact ⟨QuorumParamsOk.of_validateBasic checked, held.emas⟩

/-- The dynamic quorum stays in range along every run of finished proposals and parameter
updates. -/
theorem dynamic_quorum_stays_in_range {params : Params} (valid : params.validateBasic = .ok ())
    {emas : ParticipationEmas} (start : EmasOk emas) :
    ∀ ops : List (QuorumOp M), (∀ op ∈ ops, op.Accepted) →
      QuorumSound kindOf (runAll (QuorumOp.exec kindOf) ops ⟨params, emas⟩) := by
  have reached : ∀ (ops : List (QuorumOp M)) (chain : QuorumChain), (∀ op ∈ ops, op.Accepted) →
      QuorumInvariant chain → QuorumInvariant (runAll (QuorumOp.exec kindOf) ops chain) := by
    intro ops
    induction ops with
    | nil => exact fun _ _ held => held
    | cons op rest ih =>
      intro chain accepted held
      apply ih _ (fun later member => accepted later (List.mem_cons_of_mem op member))
      exact transact_of_post held
        (QuorumOp.exec_keeps kindOf (accepted op List.mem_cons_self) held)
  intro ops accepted
  exact (reached ops _ accepted ⟨QuorumParamsOk.of_validateBasic valid, start⟩).sound kindOf

/-- A law with half of the votes after a constitution amendment with all of them. -/
theorem sample_quorum_in_range :
    QuorumSound (fun kind : ProposalKind => kind)
      (runAll (QuorumOp.exec fun kind => kind)
        [.finished [.constitutionAmendment] .one, .finished [.law, .any] .half]
        ⟨sampleParams, ⟨some .half, some .half, some .half⟩⟩) := by
  have half : InUnit .half := ⟨by decide, by decide⟩
  apply dynamic_quorum_stays_in_range (fun kind : ProposalKind => kind) rfl
  · intro kind
    cases kind <;> exact ⟨.half, rfl, half⟩
  · intro op member
    rcases List.mem_cons.mp member with rfl | member
    · exact ⟨by decide, by decide⟩
    · rw [List.mem_singleton.mp member]
      exact half

end Run

end AtomOneSdk.Proposals
