import AtomOneSdk.Authz.Proposal
import AtomOneSdk.Proposals.Params

/-!
Contract: the dynamic quorum of proposals.

Owns: the kinds of a proposal, the averages of participation and their update, the quorum of
each kind, and the quorum and threshold a proposal is measured by.

Does **not** own: the participation, which a tally finds. Nothing stands for a panic: a
missing average, a parameter that does not parse, or decimals that do not fit.
-/

namespace AtomOneSdk.Proposals

open Lib
open Authz (ProposalKind)

/-- `ProposalKinds` of a list of messages; the code keeps the kinds as the bits of a number.
A message that cannot be unpacked counts as any. -/
def kindsOf {M : Type} (kindOf : M → ProposalKind) (messages : List M) : List ProposalKind :=
  if messages.isEmpty then [.any] else messages.map kindOf

/-! ## Averages of participation -/

/-- The three stored averages. -/
structure ParticipationEmas where
  participation : Option BoundedDec
  constitutionAmendment : Option BoundedDec
  law : Option BoundedDec
deriving DecidableEq

/-- `LegacyNewDecWithPrec(8, 1)`. -/
def emaOldWeight : BoundedDec := ⟨800000000000000000, by decide⟩

/-- `LegacyNewDecWithPrec(2, 1)`. -/
def emaNewWeight : BoundedDec := ⟨200000000000000000, by decide⟩

/-- The formula of `UpdateParticipationEMA`. -/
def nextEma (oldValue newValue : BoundedDec) : Option BoundedDec := do
  let kept ← oldValue.mul emaOldWeight
  let added ← newValue.mul emaNewWeight
  kept.add added

/-- One stored average, if the proposal is of its kind. -/
def updateEma (kinds : List ProposalKind) (kind : ProposalKind) (participation : BoundedDec)
    (current : Option BoundedDec) : Option (Option BoundedDec) :=
  if kind ∈ kinds then do
    let current ← current
    let next ← nextEma current participation
    pure (some next)
  else pure current

def updateParticipationEMA (kinds : List ProposalKind) (participation : BoundedDec)
    (emas : ParticipationEmas) : Option ParticipationEmas := do
  let amendment ← updateEma kinds .constitutionAmendment participation emas.constitutionAmendment
  let law ← updateEma kinds .law participation emas.law
  let any ← updateEma kinds .any participation emas.participation
  pure ⟨any, amendment, law⟩

/-! ## Quorum -/

/-- `min + (max - min) * ema`. -/
def computeQuorum (participationEma minQuorum maxQuorum : BoundedDec) : Option BoundedDec := do
  let width ← maxQuorum.sub minQuorum
  let part ← width.mul participationEma
  minQuorum.add part

/-- The quorum of a range at an average. -/
def quorumInRange (participationEma : Option BoundedDec) (range : Option QuorumRange) :
    Option BoundedDec := do
  let range ← range
  let minQuorum ← range.min
  let maxQuorum ← range.max
  let participation ← participationEma
  computeQuorum participation minQuorum maxQuorum

def getQuorum (p : Params) (emas : ParticipationEmas) : Option BoundedDec :=
  quorumInRange emas.participation p.quorumRange

def getConstitutionAmendmentQuorum (p : Params) (emas : ParticipationEmas) : Option BoundedDec :=
  quorumInRange emas.constitutionAmendment p.constitutionAmendmentQuorumRange

def getLawQuorum (p : Params) (emas : ParticipationEmas) : Option BoundedDec :=
  quorumInRange emas.law p.lawQuorumRange

def raisedTo (current other : BoundedDec) : BoundedDec :=
  if current.units < other.units then other else current

/-- Quorum and threshold raised to those of a kind, if the proposal is of that kind. -/
def raisedForKind (kinds : List ProposalKind) (kind : ProposalKind)
    (quorum threshold : Option BoundedDec) (current : BoundedDec × BoundedDec) :
    Option (BoundedDec × BoundedDec) :=
  if kind ∈ kinds then do
    let quorum ← quorum
    let threshold ← threshold
    pure (raisedTo current.1 quorum, raisedTo current.2 threshold)
  else pure current

/-- The threshold of a law; an endorsed one is measured by the default threshold. -/
def lawThresholdOf (p : Params) (endorsed : Bool) : Option BoundedDec := do
  let lawThreshold ← p.lawThreshold
  if endorsed then p.threshold else pure lawThreshold

/-- The default quorum and threshold, raised to those of the kinds of the proposal. -/
def getQuorumAndThreshold (p : Params) (emas : ParticipationEmas) (kinds : List ProposalKind)
    (endorsed : Bool) : Option (BoundedDec × BoundedDec) := do
  let quorum ← getQuorum p emas
  let threshold ← p.threshold
  let current ← raisedForKind kinds .constitutionAmendment (getConstitutionAmendmentQuorum p emas)
    p.constitutionAmendmentThreshold (quorum, threshold)
  raisedForKind kinds .law (getLawQuorum p emas) (lawThresholdOf p endorsed) current

end AtomOneSdk.Proposals
