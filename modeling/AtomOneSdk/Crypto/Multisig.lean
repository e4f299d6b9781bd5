import AtomOneSdk.Crypto.CompactBitArray
import AtomOneSdk.Lib.Action

/-!
Contract: threshold multisignatures over trees of public keys.

Owns: public keys and signatures as trees, the verification of a multisignature, what it means
that a tree of keys has signed, that verification accepts nothing else, and that it accepts
every multisignature put together in order.

Does **not** own: the signatures of the leaf keys and the bytes that are signed.
-/

namespace AtomOneSdk.Crypto

open Lib List

/-- A public key: one of the chain's signature schemes, or a `LegacyAminoPubKey`. -/
inductive PubKey (K : Type) where
  | leaf (key : K)
  | multisig (threshold : Nat) (pubKeys : List (PubKey K))

/-- `SignatureData`; the code refuses types other than the two it knows. -/
inductive SignatureData (Mode : Type) where
  | single (signMode : Mode) (signature : List Byte)
  | multi (bitArray : Option CompactBitArray) (signatures : List (SignatureData Mode))
  | other

/-- Why a multisignature is refused, and the panics. -/
inductive MultisigReason (E : Type) where
  | bitArraySize (expected : Nat)
  | signatureSize (size : Nat)
  | notEnough (found expected : Nat)
  | signBytes (reason : E)
  | unverified (index : Nat)
  | notMultisig (index : Nat)
  | improperType (sigIndex : Nat)
  | panicked (reason : Panic)
deriving DecidableEq, Repr

/-- The signature scheme of the leaf keys and `getSignBytes`. -/
structure Scheme (K Mode E : Type) where
  verifySignature : K → List Byte → List Byte → Bool
  getSignBytes : Mode → Except E (List Byte)

abbrev Checked (E : Type) (α : Type) := Except (Fault (MultisigReason E)) α

section Verification

variable {K Mode E : Type}

def orPanic {α : Type} : Except Panic α → Checked E α
  | .ok value => .ok value
  | .error reason => .error (.panic (.panicked reason))

/-! The bit array is a pointer; a nil one has no bits. -/

def sizeOfBits : Option CompactBitArray → Int
  | none => 0
  | some bA => bA.count

def bitAt (bitArray : Option CompactBitArray) (i : Nat) : Checked E Bool :=
  match bitArray with
  | none => .ok false
  | some bA => orPanic (bA.getIndex i)

def trueBitsBefore (bitArray : Option CompactBitArray) (index : Int) : Checked E Nat :=
  match bitArray with
  | none => .error (.panic (.panicked .nilDereference))
  | some bA => .ok (bA.numTrueBitsBefore index)

def checkSizes (threshold keys : Nat) (bitArray : Option CompactBitArray) (signatures : Nat) :
    Checked E Unit :=
  if (keys : Int) ≠ sizeOfBits bitArray then .error (.error (.bitArraySize keys))
  else if signatures < threshold ∨ keys < signatures then
    .error (.error (.signatureSize signatures))
  else do
    let found ← trueBitsBefore bitArray keys
    if found < threshold then .error (.error (.notEnough found threshold)) else .ok ()

def verifySingle (scheme : Scheme K Mode E) (key : PubKey K) (signMode : Mode)
    (signature : List Byte) (i : Nat) : Checked E Unit :=
  match scheme.getSignBytes signMode with
  | .error reason => .error (.error (.signBytes reason))
  | .ok msg =>
    match key with
    | .multisig _ _ => .error (.panic (.panicked .notImplemented))
    | .leaf key =>
      if scheme.verifySignature key msg signature then .ok ()
      else .error (.error (.unverified i))

mutual

/-- The signature of the key at index `i`, the one with index `sigIndex` in the list. -/
def verifyKey (scheme : Scheme K Mode E) : PubKey K → SignatureData Mode → Nat → Nat →
    Checked E Unit
  | key, .single signMode signature, i, _ => verifySingle scheme key signMode signature i
  | .leaf _, .multi _ _, i, _ => .error (.error (.notMultisig i))
  | .multisig threshold pubKeys, .multi bitArray signatures, _, _ =>
    match checkSizes threshold pubKeys.length bitArray signatures.length with
    | .error fault => .error fault
    | .ok () => verifyKeys scheme bitArray signatures pubKeys 0 0
  | _, .other, _, sigIndex => .error (.error (.improperType sigIndex))

/-- The loop over the keys from index `i` on. -/
def verifyKeys (scheme : Scheme K Mode E) (bitArray : Option CompactBitArray)
    (signatures : List (SignatureData Mode)) : List (PubKey K) → Nat → Nat → Checked E Unit
  | [], _, _ => .ok ()
  | key :: pubKeys, i, sigIndex =>
    match bitAt bitArray i with
    | .error fault => .error fault
    | .ok false => verifyKeys scheme bitArray signatures pubKeys (i + 1) sigIndex
    | .ok true =>
      match signatures[sigIndex]? with
      | none => .error (.panic (.panicked .indexOutOfRange))
      | some signature =>
        match verifyKey scheme key signature i sigIndex with
        | .error fault => .error fault
        | .ok () => verifyKeys scheme bitArray signatures pubKeys (i + 1) (sigIndex + 1)

end

def verifyMultisignature (scheme : Scheme K Mode E) (threshold : Nat) (pubKeys : List (PubKey K))
    (bitArray : Option CompactBitArray) (signatures : List (SignatureData Mode)) :
    Checked E Unit :=
  match checkSizes threshold pubKeys.length bitArray signatures.length with
  | .error fault => .error fault
  | .ok () => verifyKeys scheme bitArray signatures pubKeys 0 0

/-! ## Signed trees -/

/-- A key position with its signature. -/
structure Carrier (K Mode : Type) where
  position : Nat
  sigIndex : Nat
  key : PubKey K
  signature : SignatureData Mode

/-- The carriers stand at ascending positions, with ascending signatures, in the lists. -/
structure Carried (pubKeys : List (PubKey K)) (signatures : List (SignatureData Mode))
    (carriers : List (Carrier K Mode)) : Prop where
  positions : (carriers.map Carrier.position).Pairwise (· < ·)
  sigIndices : (carriers.map Carrier.sigIndex).Pairwise (· < ·)
  keyAt : ∀ carrier ∈ carriers, pubKeys[carrier.position]? = some carrier.key
  signatureAt : ∀ carrier ∈ carriers, signatures[carrier.sigIndex]? = some carrier.signature

/-- A key has signed: a leaf with a valid signature, a multisig with at least as many signed
positions as its threshold, each with a signature of its own. -/
inductive Signed (scheme : Scheme K Mode E) : PubKey K → SignatureData Mode → Prop where
  | leaf {key : K} {signMode : Mode} {signature msg : List Byte} :
    scheme.getSignBytes signMode = .ok msg → scheme.verifySignature key msg signature = true →
    Signed scheme (.leaf key) (.single signMode signature)
  | multisig {threshold : Nat} {pubKeys : List (PubKey K)} {bitArray : Option CompactBitArray}
    {signatures : List (SignatureData Mode)} (carriers : List (Carrier K Mode)) :
    Carried pubKeys signatures carriers → threshold ≤ carriers.length →
    (∀ carrier ∈ carriers, Signed scheme carrier.key carrier.signature) →
    Signed scheme (.multisig threshold pubKeys) (.multi bitArray signatures)

/-- A signature put together for a set of positions: their bits are set, the signatures of the
positions follow each other in order, and each is valid or put together in turn. Unused bits
of the last byte are arbitrary. -/
inductive Built (scheme : Scheme K Mode E) : PubKey K → SignatureData Mode → Prop where
  | leaf {key : K} {signMode : Mode} {signature msg : List Byte} :
    scheme.getSignBytes signMode = .ok msg → scheme.verifySignature key msg signature = true →
    Built scheme (.leaf key) (.single signMode signature)
  | multisig {threshold : Nat} {pubKeys : List (PubKey K)} {bitArray : CompactBitArray}
    {signatures : List (SignatureData Mode)} (positions : Finset Nat)
    (keyOf : Nat → PubKey K) (signatureOf : Nat → SignatureData Mode) :
    bitArray.extraBitsStored < 8 → bitArray.count = pubKeys.length →
    (∀ i < pubKeys.length, bitArray.isSet i = decide (i ∈ positions)) →
    threshold ≤ positions.card →
    (∀ i ∈ positions, pubKeys[i]? = some (keyOf i)) →
    signatures = (positions.sort (· ≤ ·)).map signatureOf →
    (∀ i ∈ positions, Built scheme (keyOf i) (signatureOf i)) →
    Built scheme (.multisig threshold pubKeys) (.multi (some bitArray) signatures)

/-! ## Soundness -/

variable {scheme : Scheme K Mode E}

theorem checkSizes_ok {threshold keys signatures : Nat} {bitArray : Option CompactBitArray}
    (passed : (checkSizes threshold keys bitArray signatures : Checked E Unit) = .ok ()) :
    ∃ bA, bitArray = some bA ∧ bA.count = keys ∧ threshold ≤ bA.numTrueBitsBefore keys := by
  unfold checkSizes at passed
  split_ifs at passed with size signatureSize
  cases bitArray with
  | none => cases passed
  | some bA =>
    obtain ⟨found, isFound, enough⟩ := bind_eq_ok.mp passed
    cases isFound
    split_ifs at enough with short
    exact ⟨bA, rfl, (not_ne_iff.mp size).symm, not_lt.mp short⟩

theorem signed_of_verifySingle {key : PubKey K} {signMode : Mode} {signature : List Byte} {i : Nat}
    (ran : verifySingle scheme key signMode signature i = .ok ()) :
    Signed scheme key (.single signMode signature) := by
  unfold verifySingle at ran
  cases signed : scheme.getSignBytes signMode with
  | error reason =>
    rw [signed] at ran
    cases ran
  | ok msg =>
    rw [signed] at ran
    cases key with
    | multisig threshold pubKeys => cases ran
    | leaf key =>
      dsimp only at ran
      split_ifs at ran with valid
      exact .leaf signed valid

/-- What a completed loop over the keys from index `i` on shows: every bit could be read, and
the set ones have carriers with the signatures from `sigIndex` on. -/
structure LoopDone (scheme : Scheme K Mode E) (bA : CompactBitArray)
    (signatures : List (SignatureData Mode)) (pubKeys : List (PubKey K)) (i sigIndex : Nat)
    (carriers : List (Carrier K Mode)) : Prop where
  readable : ∀ k < pubKeys.length, ∃ bit, bA.getIndex ((i + k : Nat) : Int) = .ok bit
  positions : carriers.map Carrier.position = (List.range' i pubKeys.length).filter bA.isSet
  sigIndices : carriers.map Carrier.sigIndex = List.range' sigIndex carriers.length
  keyAt : ∀ carrier ∈ carriers, i ≤ carrier.position
    ∧ pubKeys[carrier.position - i]? = some carrier.key
  signatureAt : ∀ carrier ∈ carriers, signatures[carrier.sigIndex]? = some carrier.signature
  signed : ∀ carrier ∈ carriers, Signed scheme carrier.key carrier.signature

variable {sigIndex : Nat} {carriers : List (Carrier K Mode)} {bA : CompactBitArray}
  {signatures : List (SignatureData Mode)} {pubKeys : List (PubKey K)} {i : Nat}

theorem LoopDone.later
    (done : LoopDone scheme bA signatures pubKeys (i + 1) sigIndex carriers) (key : PubKey K) :
    ∀ carrier ∈ carriers, i ≤ carrier.position
      ∧ (key :: pubKeys)[carrier.position - i]? = some carrier.key := by
  intro carrier member
  obtain ⟨behind, isKey⟩ := done.keyAt carrier member
  have next : carrier.position - i = carrier.position - (i + 1) + 1 := by omega
  rw [next, getElem?_cons_succ]
  exact ⟨by omega, isKey⟩

theorem LoopDone.readable_cons
    (done : LoopDone scheme bA signatures pubKeys (i + 1) sigIndex carriers) {bit : Bool}
    (isBit : bA.getIndex i = .ok bit) :
    ∀ k < pubKeys.length + 1, ∃ bit, bA.getIndex ((i + k : Nat) : Int) = .ok bit := by
  intro k small
  cases k with
  | zero => exact ⟨bit, isBit⟩
  | succ k =>
    obtain ⟨later, isLater⟩ := done.readable k (by omega)
    refine ⟨later, ?_⟩
    rw [← isLater]
    congr 2
    omega

theorem LoopDone.skip
    (done : LoopDone scheme bA signatures pubKeys (i + 1) sigIndex carriers)
    (unset : bA.getIndex i = .ok false) (key : PubKey K) :
    LoopDone scheme bA signatures (key :: pubKeys) i sigIndex carriers where
  readable := done.readable_cons unset
  positions := by
    have notSet : bA.isSet i = false := by
      rw [CompactBitArray.isSet, unset]
      rfl
    rw [done.positions, length_cons, range'_succ, filter_cons, notSet]
    rfl
  sigIndices := done.sigIndices
  keyAt := done.later key
  signatureAt := done.signatureAt
  signed := done.signed

/-- A key whose bit is set, with its signature. -/
theorem LoopDone.take
    (done : LoopDone scheme bA signatures pubKeys (i + 1) (sigIndex + 1) carriers)
    (set_ : bA.getIndex i = .ok true) {key : PubKey K} {signature : SignatureData Mode}
    (here : signatures[sigIndex]? = some signature) (signed : Signed scheme key signature) :
    LoopDone scheme bA signatures (key :: pubKeys) i sigIndex
      (⟨i, sigIndex, key, signature⟩ :: carriers) where
  readable := done.readable_cons set_
  positions := by
    have isSet : bA.isSet i = true := by
      rw [CompactBitArray.isSet, set_]
      rfl
    rw [map_cons, done.positions, length_cons, range'_succ, filter_cons, isSet]
    rfl
  sigIndices := by
    rw [map_cons, done.sigIndices, length_cons, range'_succ]
  keyAt := by
    intro carrier member
    rcases mem_cons.mp member with rfl | later
    · exact ⟨le_refl i, by rw [Nat.sub_self]; rfl⟩
    · exact done.later key carrier later
  signatureAt := by
    intro carrier member
    rcases mem_cons.mp member with rfl | later
    · exact here
    · exact done.signatureAt carrier later
  signed := by
    intro carrier member
    rcases mem_cons.mp member with rfl | later
    · exact signed
    · exact done.signed carrier later

/-- A completed loop over all keys behind passed checks. -/
theorem LoopDone.whole {bA : CompactBitArray} {signatures : List (SignatureData Mode)}
    {pubKeys : List (PubKey K)} {threshold : Nat}
    (done : LoopDone scheme bA signatures pubKeys 0 0 carriers) (size : bA.count = pubKeys.length)
    (enough : threshold ≤ bA.numTrueBitsBefore pubKeys.length) :
    Carried pubKeys signatures carriers ∧ threshold ≤ carriers.length := by
  have fits : bA.Fits := by
    apply CompactBitArray.fits_of_readable
    intro i inside
    obtain ⟨bit, isBit⟩ := done.readable i (by omega)
    rw [Nat.zero_add] at isBit
    exact ⟨bit, isBit⟩
  have counted : carriers.length = bA.numTrueBitsBefore pubKeys.length := by
    rw [CompactBitArray.numTrueBitsBefore_eq fits, Int.toNat_natCast, countP_eq_length_filter,
      range_eq_range', ← done.positions, length_map]
  refine ⟨⟨?_, ?_, ?_, done.signatureAt⟩, by omega⟩
  · rw [done.positions]
    exact Pairwise.filter _ (pairwise_lt_range' 1)
  · rw [done.sigIndices]
    exact pairwise_lt_range' 1
  · intro carrier member
    exact (done.keyAt carrier member).2

mutual

theorem signed_of_verifyKey : ∀ (key : PubKey K) (signature : SignatureData Mode)
    (i sigIndex : Nat), verifyKey scheme key signature i sigIndex = .ok () →
    Signed scheme key signature
  | key, .single _ _, _, _, ran => by
    rw [verifyKey] at ran
    exact signed_of_verifySingle ran
  | .leaf _, .multi _ _, _, _, ran => by
    rw [verifyKey] at ran
    cases ran
  | .leaf _, .other, _, _, ran => by
    rw [verifyKey] at ran
    cases ran
  | .multisig _ _, .other, _, _, ran => by
    rw [verifyKey] at ran
    cases ran
  | .multisig threshold pubKeys, .multi bitArray signatures, _, _, ran => by
    rw [verifyKey] at ran
    cases checks : (checkSizes threshold pubKeys.length bitArray signatures.length
        : Checked E Unit) with
    | error fault =>
      rw [checks] at ran
      cases ran
    | ok passed =>
      rw [checks] at ran
      obtain ⟨bA, rfl, size, enough⟩ := checkSizes_ok checks
      obtain ⟨carriers, done⟩ := loopDone_of_verifyKeys bA signatures pubKeys 0 0 ran
      obtain ⟨carried, reached⟩ := done.whole size enough
      exact .multisig carriers carried reached done.signed

theorem loopDone_of_verifyKeys (bA : CompactBitArray) (signatures : List (SignatureData Mode)) :
    ∀ (pubKeys : List (PubKey K)) (i sigIndex : Nat),
    verifyKeys scheme (some bA) signatures pubKeys i sigIndex = .ok () →
    ∃ carriers, LoopDone scheme bA signatures pubKeys i sigIndex carriers
  | [], i, sigIndex, _ => ⟨[], nofun, rfl, rfl, nofun, nofun, nofun⟩
  | key :: pubKeys, i, sigIndex, ran => by
    rw [verifyKeys] at ran
    cases read : bA.getIndex i with
    | error reason =>
      rw [bitAt, read] at ran
      cases ran
    | ok bit =>
      rw [bitAt, read] at ran
      cases bit with
      | false =>
        obtain ⟨carriers, done⟩ :=
          loopDone_of_verifyKeys bA signatures pubKeys (i + 1) sigIndex ran
        exact ⟨carriers, done.skip read key⟩
      | true =>
        cases here : signatures[sigIndex]? with
        | none =>
          rw [here] at ran
          cases ran
        | some signature =>
          rw [here] at ran
          cases verified : verifyKey scheme key signature i sigIndex with
          | error fault =>
            simp only [orPanic, verified] at ran
            cases ran
          | ok passed =>
            simp only [orPanic, verified] at ran
            have signed := signed_of_verifyKey key signature i sigIndex verified
            obtain ⟨carriers, done⟩ :=
              loopDone_of_verifyKeys bA signatures pubKeys (i + 1) (sigIndex + 1) ran
            exact ⟨_, done.take read here signed⟩

end

/-! ## Completeness -/

/-- The set bits in order are the sorted positions. -/
theorem filter_range_eq_sort {isSet : Nat → Bool} {n : Nat} {positions : Finset Nat}
    (inside : ∀ i ∈ positions, i < n) (reads : ∀ i < n, isSet i = decide (i ∈ positions)) :
    (List.range n).filter isSet = positions.sort (· ≤ ·) := by
  have same : ((List.range n).filter isSet).toFinset = positions := by
    ext i
    simp only [mem_toFinset, mem_filter, mem_range]
    constructor
    · rintro ⟨small, set_⟩
      rw [reads i small] at set_
      exact of_decide_eq_true set_
    · intro member
      exact ⟨inside i member, by rw [reads i (inside i member)]; exact decide_eq_true member⟩
  have nodup : ((List.range n).filter isSet).Nodup := nodup_range.filter _
  have sorted : ((List.range n).filter isSet).Pairwise (· ≤ ·) :=
    (pairwise_le_range).filter _
  rw [← same]
  exact ((toFinset_sort (· ≤ ·) nodup).mpr sorted).symm

theorem getIndex_of_isSet {bA : CompactBitArray} (fits : bA.Fits) (i : Nat) :
    bA.getIndex i = .ok (bA.isSet i) := by
  obtain ⟨bit, isBit⟩ := CompactBitArray.getIndex_total fits i
  rw [CompactBitArray.isSet, isBit]
  cases bit <;> rfl

section Built

variable {bA : CompactBitArray} {pubKeys : List (PubKey K)} {positions : Finset Nat}
  {keyOf : Nat → PubKey K} {signatureOf : Nat → SignatureData Mode}

/-- The loop from index `i` on accepts when the signatures from `sigIndex` on are those of the
set bits that are left. -/
theorem verifyKeys_of_built (fits : bA.Fits)
    (reads : ∀ i < pubKeys.length, bA.isSet i = decide (i ∈ positions))
    (keyAt : ∀ i ∈ positions, pubKeys[i]? = some (keyOf i))
    (verified : ∀ i ∈ positions, ∀ index sigIndex,
      verifyKey scheme (keyOf i) (signatureOf i) index sigIndex = .ok ())
    (signatures : List (SignatureData Mode)) (rest : List (PubKey K)) :
    ∀ i sigIndex, pubKeys.drop i = rest → i + rest.length = pubKeys.length →
    signatures.drop sigIndex = ((List.range' i rest.length).filter bA.isSet).map signatureOf →
    verifyKeys scheme (some bA) signatures rest i sigIndex = .ok () := by
  induction rest with
  | nil =>
    intro i sigIndex _ _ _
    rfl
  | cons key rest later =>
    intro i sigIndex split total left
    rw [length_cons] at total left
    have inside : i < pubKeys.length := by omega
    have isKey : pubKeys[i]? = some key := by
      rw [← head?_drop, split]
      rfl
    have nextSplit : pubKeys.drop (i + 1) = rest := by
      rw [← tail_drop, split]
      rfl
    rw [range'_succ, filter_cons] at left
    rw [verifyKeys, bitAt, getIndex_of_isSet fits]
    cases isSet : bA.isSet i with
    | false =>
      rw [isSet] at left
      exact later (i + 1) sigIndex nextSplit (by omega) left
    | true =>
      rw [isSet] at left
      have member : i ∈ positions := by
        rw [reads i inside] at isSet
        exact of_decide_eq_true isSet
      have here : signatures[sigIndex]? = some (signatureOf i) := by
        rw [← head?_drop, left]
        rfl
      have nextLeft : signatures.drop (sigIndex + 1)
          = ((List.range' (i + 1) rest.length).filter bA.isSet).map signatureOf := by
        rw [← tail_drop, left]
        rfl
      have sameKey : key = keyOf i := by
        rw [keyAt i member] at isKey
        exact (Option.some.inj isKey).symm
      simp only [orPanic, here, sameKey, verified i member i sigIndex]
      exact later (i + 1) (sigIndex + 1) nextSplit (by omega) nextLeft

end Built

theorem verifyKey_of_built {key : PubKey K} {signature : SignatureData Mode}
    (built : Built scheme key signature) :
    ∀ i sigIndex, verifyKey scheme key signature i sigIndex = .ok () := by
  induction built with
  | leaf signed valid =>
    intro i sigIndex
    rw [verifyKey, verifySingle, signed]
    exact if_pos valid
  | @multisig threshold pubKeys bitArray signatures positions keyOf signatureOf extra size reads
    enough keyAt inOrder _ verified =>
    intro i sigIndex
    have fits := CompactBitArray.fits_of_extra extra
    have inside : ∀ p ∈ positions, p < pubKeys.length := by
      intro p member
      exact (List.getElem?_eq_some_iff.mp (keyAt p member)).1
    have sorted := filter_range_eq_sort inside reads
    have length : signatures.length = positions.card := by
      rw [inOrder, length_map, Finset.length_sort]
    have counted : bitArray.numTrueBitsBefore pubKeys.length = positions.card := by
      rw [CompactBitArray.numTrueBitsBefore_eq fits, Int.toNat_natCast,
        countP_eq_length_filter, sorted, Finset.length_sort]
    have atMost : positions.card ≤ pubKeys.length := by
      rw [← Finset.card_range pubKeys.length]
      exact Finset.card_le_card fun p member => Finset.mem_range.mpr (inside p member)
    have passed : (checkSizes threshold pubKeys.length (some bitArray) signatures.length
        : Checked E Unit) = .ok () := by
      have sameSize : ¬ (pubKeys.length : Int) ≠ sizeOfBits (some bitArray) :=
        not_ne_iff.mpr size.symm
      have between : ¬ (signatures.length < threshold ∨ pubKeys.length < signatures.length) := by
        omega
      rw [checkSizes, if_neg sameSize, if_neg between]
      show (if bitArray.numTrueBitsBefore pubKeys.length < threshold then _ else _) = _
      rw [counted, if_neg (not_lt.mpr enough)]
    rw [verifyKey, passed]
    apply verifyKeys_of_built fits reads keyAt verified signatures pubKeys 0 0 rfl
      (Nat.zero_add _)
    rw [drop_zero, inOrder, ← range_eq_range', sorted]

theorem verifyMultisignature_eq (threshold : Nat) (pubKeys : List (PubKey K))
    (bitArray : Option CompactBitArray) (signatures : List (SignatureData Mode)) :
    verifyMultisignature scheme threshold pubKeys bitArray signatures
      = verifyKey scheme (.multisig threshold pubKeys) (.multi bitArray signatures) 0 0 := by
  rw [verifyKey, verifyMultisignature]

end Verification

/-! ## Thresholds -/

/-- A multisignature is accepted only with its threshold of signed positions, at every level of
the tree; every one put together in order is accepted; and the byte-wise count of bits agrees
with reading them one by one. -/
theorem multisignature_needs_threshold {K Mode E : Type} (scheme : Scheme K Mode E) :
    (∀ (threshold : Nat) (pubKeys : List (PubKey K)) (bitArray : Option CompactBitArray)
        (signatures : List (SignatureData Mode)),
      verifyMultisignature scheme threshold pubKeys bitArray signatures = .ok () →
        Signed scheme (.multisig threshold pubKeys) (.multi bitArray signatures))
      ∧ (∀ (threshold : Nat) (pubKeys : List (PubKey K)) (bitArray : Option CompactBitArray)
          (signatures : List (SignatureData Mode)),
        Built scheme (.multisig threshold pubKeys) (.multi bitArray signatures) →
          verifyMultisignature scheme threshold pubKeys bitArray signatures = .ok ())
      ∧ ∀ bA : CompactBitArray, bA.extraBitsStored < 8 →
          (∀ i : Int, ∃ bit, bA.getIndex i = .ok bit)
            ∧ ∀ index : Int, bA.numTrueBitsBefore index
                = ((List.range index.toNat).filter fun i : Nat =>
                    decide (bA.getIndex (i : Int) = .ok true)).length := by
  refine ⟨?_, ?_, ?_⟩
  · intro threshold pubKeys bitArray signatures accepted
    rw [verifyMultisignature_eq] at accepted
    exact signed_of_verifyKey _ _ 0 0 accepted
  · intro threshold pubKeys bitArray signatures built
    rw [verifyMultisignature_eq]
    exact verifyKey_of_built built 0 0
  · intro bA extra
    have fits := CompactBitArray.fits_of_extra extra
    refine ⟨CompactBitArray.getIndex_total fits, ?_⟩
    intro index
    rw [CompactBitArray.numTrueBitsBefore_eq fits, countP_eq_length_filter]
    rfl

/-- A scheme in which the byte of a key is its signature. -/
def sampleScheme : Scheme Byte Unit Unit where
  verifySignature := fun key _ signature => signature = [key]
  getSignBytes := fun _ => .ok []

/-- Two of three keys, one of them a multisig with a repeated key. The unused bits of both
bytes are set. -/
def sampleKeys : List (PubKey Byte) := [.leaf 1, .multisig 1 [.leaf 2, .leaf 2], .leaf 3]

def sampleBits : CompactBitArray := ⟨3, [0b11011111#8]⟩

def sampleSignatures : List (SignatureData Unit) :=
  [.single () [1], .multi (some ⟨2, [0b01111111#8]⟩) [.single () [2]]]

theorem sample_multisignature_is_signed :
    verifyMultisignature sampleScheme 2 sampleKeys (some sampleBits) sampleSignatures = .ok ()
      ∧ Signed sampleScheme (.multisig 2 sampleKeys) (.multi (some sampleBits) sampleSignatures)
      ∧ sampleBits.numTrueBitsBefore 100
          = ((List.range 100).filter fun i : Nat =>
              decide (sampleBits.getIndex (i : Int) = .ok true)).length := by
  have accepted :
      verifyMultisignature sampleScheme 2 sampleKeys (some sampleBits) sampleSignatures = .ok () :=
    rfl
  obtain ⟨sound, _, counts⟩ := multisignature_needs_threshold sampleScheme
  exact ⟨accepted, sound _ _ _ _ accepted, (counts sampleBits (by decide)).2 100⟩

end AtomOneSdk.Crypto
