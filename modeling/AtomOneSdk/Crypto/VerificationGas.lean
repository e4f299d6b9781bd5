import AtomOneSdk.Crypto.Multisig

/-!
Contract: the gas of multisignatures in `x/auth/ante`.

Owns: `DefaultSigVerificationGasConsumer` and `ConsumeMultisignatureVerificationGas`, the walk
over set bits that gas and verification have in common, which keys and signatures pass it, are
refused or panic, and which malformed multisignatures are refused.

Does **not** own: the limit of the gas meter. An ed25519 key is refused, so its cost is left out.
-/

namespace AtomOneSdk.Crypto

open Lib List

inductive KeyType where
  | ed25519
  | secp256k1
  | secp256r1
  | unrecognized
deriving DecidableEq, Repr

/-- Why gas is not charged, and the panics. -/
inductive GasReason where
  | unsupported
  | unrecognized
  | notMultisignature
  | panicked (reason : Panic)
deriving DecidableEq, Repr

abbrev Gas := Except (Fault GasReason) Nat

/-- The type of each leaf key, and the cost of the parameters. -/
structure GasParams (K : Type) where
  keyType : K → KeyType
  sigVerifyCostSecp256k1 : Nat

section Gas

variable {K Mode E : Type}

def leafGas (params : GasParams K) (key : K) : Gas :=
  match params.keyType key with
  | .ed25519 => .error (.error .unsupported)
  | .secp256k1 => .ok params.sigVerifyCostSecp256k1
  | .secp256r1 => .ok (params.sigVerifyCostSecp256k1 / 2)
  | .unrecognized => .error (.error .unrecognized)

def readBit (bitArray : Option CompactBitArray) (i : Nat) : Except Panic Bool :=
  match bitArray with
  | none => .ok false
  | some bA => bA.getIndex i

/-- The bits behind the last key: a set one has no key. -/
def bitsBehind (bitArray : Option CompactBitArray) : List Nat → Gas
  | [] => .ok 0
  | i :: rest =>
    match readBit bitArray i with
    | .error reason => .error (.panic (.panicked reason))
    | .ok true => .error (.panic (.panicked .indexOutOfRange))
    | .ok false => bitsBehind bitArray rest

mutual

def sigVerificationGas (params : GasParams K) : PubKey K → SignatureData Mode → Gas
  | .leaf key, _ => leafGas params key
  | .multisig _ pubKeys, .multi bitArray signatures =>
    multisignatureGas params bitArray signatures pubKeys 0 0
  | .multisig _ _, _ => .error (.error .notMultisignature)

/-- The loop over the bits from index `i` on, with the keys that are left. -/
def multisignatureGas (params : GasParams K) (bitArray : Option CompactBitArray)
    (signatures : List (SignatureData Mode)) : List (PubKey K) → Nat → Nat → Gas
  | [], i, _ => bitsBehind bitArray (List.range' i ((sizeOfBits bitArray).toNat - i))
  | key :: pubKeys, i, sigIndex =>
    match readBit bitArray i with
    | .error reason => .error (.panic (.panicked reason))
    | .ok false => multisignatureGas params bitArray signatures pubKeys (i + 1) sigIndex
    | .ok true =>
      match signatures[sigIndex]? with
      | none => .error (.panic (.panicked .indexOutOfRange))
      | some signature => do
        let gas ← sigVerificationGas params key signature
        let later ← multisignatureGas params bitArray signatures pubKeys (i + 1) (sigIndex + 1)
        pure (gas + later)

end

def consumeMultisignatureVerificationGas (params : GasParams K) (pubKeys : List (PubKey K))
    (bitArray : Option CompactBitArray) (signatures : List (SignatureData Mode)) : Gas :=
  multisignatureGas params bitArray signatures pubKeys 0 0

/-- Gas is consumed, then the multisignature is verified. -/
def chargeAndVerify (scheme : Scheme K Mode E) (params : GasParams K) (threshold : Nat)
    (pubKeys : List (PubKey K)) (bitArray : Option CompactBitArray)
    (signatures : List (SignatureData Mode)) :
    Except (Fault (GasReason ⊕ MultisigReason E)) Unit := do
  let _ ← (consumeMultisignatureVerificationGas params pubKeys bitArray signatures).mapError
    (Fault.map .inl)
  (verifyMultisignature scheme threshold pubKeys bitArray signatures).mapError (Fault.map .inr)

/-! ## Verdicts -/

/-- Passed, refused with an error, or a panic. -/
def verdict {ε α : Type} : Except (Fault ε) α → Option Bool
  | .ok _ => some true
  | .error (.error _) => some false
  | .error (.panic _) => none

def both : Option Bool → Option Bool → Option Bool
  | some true, later => later
  | first, _ => first

theorem verdict_false_iff {ε α : Type} {outcome : Except (Fault ε) α} :
    verdict outcome = some false ↔ ∃ reason, outcome = .error (.error reason) := by
  rcases outcome with (reason | reason) | value <;> simp [verdict]

theorem verdict_bind {ε α β : Type} {first : Except (Fault ε) α} {later : Option Bool}
    {next : α → Except (Fault ε) β} (after : ∀ value, verdict (next value) = later) :
    verdict (first >>= next) = both (verdict first) later := by
  rcases first with (reason | reason) | value
  · rfl
  · rfl
  · exact after value

theorem verdict_mapError {ε ε' α : Type} (f : ε → ε') (outcome : Except (Fault ε) α) :
    verdict (outcome.mapError (Fault.map f)) = verdict outcome := by
  rcases outcome with (reason | reason) | value <;> rfl

/-- The verdict over a sequence of steps: all pass, or one refuses and those before it pass. -/
def Ends (here : Nat → Option Bool) : Bool → Prop
  | true => ∀ k, here k = some true
  | false => ∃ k, here k = some false ∧ ∀ j < k, here j = some true

theorem ends_zero_iff {here : Nat → Option Bool} (first : here 0 = some true) (ok : Bool) :
    Ends here ok ↔ Ends (fun k => here (k + 1)) ok := by
  cases ok with
  | true =>
    refine ⟨fun all k => all (k + 1), fun all k => ?_⟩
    cases k with
    | zero => exact first
    | succ k => exact all k
  | false =>
    constructor
    · rintro ⟨k, refused, passed⟩
      cases k with
      | zero => rw [first] at refused; cases refused
      | succ k => exact ⟨k, refused, fun j before => passed (j + 1) (by omega)⟩
    · rintro ⟨k, refused, passed⟩
      refine ⟨k + 1, refused, fun j before => ?_⟩
      cases j with
      | zero => exact first
      | succ j => exact passed j (by omega)

/-- A loop whose verdict is that of its step and, if the step passes, of the rest. -/
theorem ends_iff (ok : Bool) : ∀ (n : Nat) (loop : Nat → Option Bool) {here : Nat → Option Bool},
    (∀ i, loop i = both (here i) (loop (i + 1))) → loop n = some true →
    (∀ i, n ≤ i → here i = some true) → (loop 0 = some ok ↔ Ends here ok)
  | 0, loop, here, _, stop, outside => by
    rw [stop, Option.some_inj]
    cases ok with
    | true => exact iff_of_true rfl fun k => outside k (Nat.zero_le k)
    | false =>
      refine iff_of_false (by decide) ?_
      rintro ⟨k, refused, -⟩
      rw [outside k (Nat.zero_le k)] at refused
      cases refused
  | n + 1, loop, here, step, stop, outside => by
    have later := ends_iff ok n (fun i => loop (i + 1)) (fun i => step (i + 1)) stop
      (fun i behind => outside (i + 1) (by omega))
    rw [step 0]
    match first : here 0 with
    | some true =>
      rw [ends_zero_iff first]
      exact later
    | some false =>
      cases ok with
      | true => exact iff_of_false (by simp [both]) fun all => by simp [all 0] at first
      | false => exact iff_of_true rfl ⟨0, first, fun j before => absurd before (Nat.not_lt_zero j)⟩
    | none =>
      refine iff_of_false (by simp [both]) fun ended => ?_
      cases ok with
      | true => simp [ended 0] at first
      | false =>
        obtain ⟨k, refused, passed⟩ := ended
        cases k with
        | zero => rw [first] at refused; cases refused
        | succ k => simp [passed 0 (Nat.succ_pos k)] at first

/-! ## Walks -/

/-- The number of bits set before an index. -/
def setBefore (bitArray : Option CompactBitArray) (i : Nat) : Nat :=
  (List.range i).countP fun k => readBit bitArray k = .ok true

theorem setBefore_succ (bitArray : Option CompactBitArray) (i : Nat) :
    setBefore bitArray (i + 1)
      = setBefore bitArray i + if readBit bitArray i = .ok true then 1 else 0 := by
  unfold setBefore
  rw [range_succ, countP_append, countP_singleton]
  simp only [decide_eq_true_eq]

theorem readBit_outside {bitArray : Option CompactBitArray} {i : Nat}
    (outside : sizeOfBits bitArray ≤ i) : readBit bitArray i = .ok false := by
  cases bitArray with
  | none => rfl
  | some bA => exact CompactBitArray.getIndex_outside (.inr outside)

/-- A set bit with its key and, counting the bits set before it, its signature. -/
structure Carries (bitArray : Option CompactBitArray) (pubKeys : List (PubKey K))
    (signatures : List (SignatureData Mode)) (i : Nat) (key : PubKey K)
    (signature : SignatureData Mode) : Prop where
  isSet : readBit bitArray i = .ok true
  keyAt : pubKeys[i]? = some key
  signatureAt : signatures[setBefore bitArray i]? = some signature

/-- A bit can be read and, if it is set, has a key and a signature. -/
def Present (bitArray : Option CompactBitArray) (pubKeys : List (PubKey K))
    (signatures : List (SignatureData Mode)) (i : Nat) : Prop :=
  readBit bitArray i = .ok false
    ∨ ∃ key signature, Carries bitArray pubKeys signatures i key signature

/-- What is asked at each leaf, and of a multisig key before its bits are walked. -/
structure Judge (K Mode : Type) where
  leaf : K → SignatureData Mode → Bool
  refuses : (threshold keys : Nat) → SignatureData Mode → Prop
  admits : (threshold keys : Nat) → Option CompactBitArray → (signatures : Nat) → Prop

/-- A key and its signature pass (`true`) or are refused (`false`): the set bits are taken in
order, up to the first that is refused. Where neither holds, the walk meets a bit that cannot be
read, or that has no key or no signature. -/
inductive Walk (judge : Judge K Mode) : Bool → PubKey K → SignatureData Mode → Prop where
  | leaf (key : K) (data : SignatureData Mode) : Walk judge (judge.leaf key data) (.leaf key) data
  | refused {threshold : Nat} {pubKeys : List (PubKey K)} {data : SignatureData Mode}
    (refuses : judge.refuses threshold pubKeys.length data) :
    Walk judge false (.multisig threshold pubKeys) data
  | through {threshold : Nat} {pubKeys : List (PubKey K)} {bitArray : Option CompactBitArray}
    {signatures : List (SignatureData Mode)}
    (admits : judge.admits threshold pubKeys.length bitArray signatures.length)
    (present : ∀ i, Present bitArray pubKeys signatures i)
    (passes : ∀ i key signature, Carries bitArray pubKeys signatures i key signature →
      Walk judge true key signature) :
    Walk judge true (.multisig threshold pubKeys) (.multi bitArray signatures)
  | stops {threshold : Nat} {pubKeys : List (PubKey K)} {bitArray : Option CompactBitArray}
    {signatures : List (SignatureData Mode)} {i : Nat} {key : PubKey K}
    {signature : SignatureData Mode}
    (admits : judge.admits threshold pubKeys.length bitArray signatures.length)
    (present : ∀ k < i, Present bitArray pubKeys signatures k)
    (passes : ∀ k < i, ∀ key signature, Carries bitArray pubKeys signatures k key signature →
      Walk judge true key signature)
    (here : Carries bitArray pubKeys signatures i key signature)
    (refuses : Walk judge false key signature) :
    Walk judge false (.multisig threshold pubKeys) (.multi bitArray signatures)

/-- The verdict at one bit. -/
def atBit (check : PubKey K → SignatureData Mode → Option Bool)
    (bitArray : Option CompactBitArray) (pubKeys : List (PubKey K))
    (signatures : List (SignatureData Mode)) (i : Nat) : Option Bool :=
  match readBit bitArray i with
  | .error _ => none
  | .ok false => some true
  | .ok true => do
    let key ← pubKeys[i]?
    let signature ← signatures[setBefore bitArray i]?
    check key signature

variable {check : PubKey K → SignatureData Mode → Option Bool}
  {bitArray : Option CompactBitArray} {pubKeys : List (PubKey K)}
  {signatures : List (SignatureData Mode)} {i : Nat}

theorem Carries.atBit_eq {key : PubKey K} {signature : SignatureData Mode}
    (carries : Carries bitArray pubKeys signatures i key signature) :
    atBit check bitArray pubKeys signatures i = check key signature := by
  simp [atBit, carries.isSet, carries.keyAt, carries.signatureAt]

theorem atBit_outside (outside : sizeOfBits bitArray ≤ i) :
    atBit check bitArray pubKeys signatures i = some true := by
  rw [atBit, readBit_outside outside]

theorem present_of_atBit {ok : Bool} (ran : atBit check bitArray pubKeys signatures i = some ok) :
    (readBit bitArray i = .ok false ∧ ok = true) ∨ ∃ key signature,
      Carries bitArray pubKeys signatures i key signature ∧ check key signature = some ok := by
  unfold atBit at ran
  match bit : readBit bitArray i with
  | .error reason => rw [bit] at ran; cases ran
  | .ok false => rw [bit] at ran; cases ran; exact .inl ⟨rfl, rfl⟩
  | .ok true =>
    rw [bit] at ran
    obtain ⟨key, keyAt, ran⟩ := Option.bind_eq_some_iff.mp ran
    obtain ⟨signature, signatureAt, ran⟩ := Option.bind_eq_some_iff.mp ran
    exact .inr ⟨key, signature, ⟨bit, keyAt, signatureAt⟩, ran⟩

theorem atBit_true_of (present : Present bitArray pubKeys signatures i)
    (passes : ∀ key signature, Carries bitArray pubKeys signatures i key signature →
      check key signature = some true) :
    atBit check bitArray pubKeys signatures i = some true := by
  rcases present with unset | ⟨key, signature, carries⟩
  · rw [atBit, unset]
  · rw [carries.atBit_eq]
    exact passes key signature carries

theorem present_of_passed (ran : atBit check bitArray pubKeys signatures i = some true) :
    Present bitArray pubKeys signatures i :=
  (present_of_atBit ran).imp And.left fun ⟨key, signature, carries, _⟩ => ⟨key, signature, carries⟩

/-- A check that judges leaves, refuses and admits as the judge does and walks the bits of what
it admits. -/
structure Follows (judge : Judge K Mode)
    (check : PubKey K → SignatureData Mode → Option Bool) : Prop where
  leaf : ∀ key data, check (.leaf key) data = some (judge.leaf key data)
  refused : ∀ threshold pubKeys data, judge.refuses threshold pubKeys.length data →
    check (.multisig threshold pubKeys) data = some false
  walked : ∀ threshold pubKeys bitArray signatures,
    judge.admits threshold pubKeys.length bitArray signatures.length → ∀ ok,
    check (.multisig threshold pubKeys) (.multi bitArray signatures) = some ok
      ↔ Ends (atBit check bitArray pubKeys signatures) ok
  judged : ∀ threshold pubKeys data ok, check (.multisig threshold pubKeys) data = some ok →
    (ok = false ∧ judge.refuses threshold pubKeys.length data)
      ∨ ∃ bitArray signatures, data = .multi bitArray signatures
        ∧ judge.admits threshold pubKeys.length bitArray signatures.length

variable {judge : Judge K Mode}

theorem Follows.of_walk (follows : Follows judge check) {ok : Bool} {key : PubKey K}
    {data : SignatureData Mode} (walk : Walk judge ok key data) : check key data = some ok := by
  induction walk with
  | leaf key data => exact follows.leaf key data
  | refused refuses => exact follows.refused _ _ _ refuses
  | through admits present _ ih =>
    exact (follows.walked _ _ _ _ admits true).mpr fun i => atBit_true_of (present i) (ih i)
  | @stops _ _ _ _ i _ _ admits present _ here _ ih refused =>
    refine (follows.walked _ _ _ _ admits false).mpr ⟨i, ?_, ?_⟩
    · rw [here.atBit_eq, refused]
    · exact fun k before => atBit_true_of (present k before) (ih k before)

/-- By induction on the key: the keys of a multisig key are smaller. -/
theorem Follows.walk (follows : Follows judge check) : ∀ (key : PubKey K)
    {data : SignatureData Mode} {ok : Bool}, check key data = some ok → Walk judge ok key data
  | .leaf key, data, ok, ran => by
    rw [follows.leaf, Option.some_inj] at ran
    rw [← ran]
    exact .leaf key data
  | .multisig threshold pubKeys, data, ok, ran => by
    have nested : ∀ {bitArray signatures i key signature ok},
        Carries bitArray pubKeys signatures i key signature →
        atBit check bitArray pubKeys signatures i = some ok → Walk judge ok key signature := by
      intro bitArray signatures i key signature ok carries passed
      have member : key ∈ pubKeys := mem_of_getElem? carries.keyAt
      rw [carries.atBit_eq] at passed
      exact follows.walk key passed
    rcases follows.judged _ _ _ _ ran with ⟨rfl, refuses⟩ | ⟨bitArray, signatures, rfl, admits⟩
    · exact .refused refuses
    have ends := (follows.walked _ _ _ _ admits ok).mp ran
    cases ok with
    | true =>
      exact .through admits (fun i => present_of_passed (ends i))
        fun i key signature carries => nested carries (ends i)
    | false =>
      obtain ⟨k, refused, passed⟩ := ends
      rcases present_of_atBit refused with ⟨-, absurd_⟩ | ⟨key, signature, here, -⟩
      · cases absurd_
      · exact .stops admits (fun j before => present_of_passed (passed j before))
          (fun j before key signature carries => nested carries (passed j before))
          here (nested here refused)

theorem Follows.iff_walk (follows : Follows judge check) {ok : Bool} {key : PubKey K}
    {data : SignatureData Mode} : check key data = some ok ↔ Walk judge ok key data :=
  ⟨follows.walk key, follows.of_walk⟩

/-! ## Charging -/

/-- Gas is charged for secp256k1 and secp256r1 keys, and for multisig keys with a
multisignature, whatever its sizes. -/
def charging (params : GasParams K) : Judge K Mode where
  leaf key _ := params.keyType key = .secp256k1 || params.keyType key = .secp256r1
  refuses _ _ data := ∀ bitArray signatures, data ≠ .multi bitArray signatures
  admits _ _ _ _ := True

theorem verdict_bitsBehind (outside : pubKeys.length ≤ i) :
    verdict (bitsBehind bitArray (List.range' i ((sizeOfBits bitArray).toNat - i)))
      = both (atBit check bitArray pubKeys signatures i)
        (verdict (bitsBehind bitArray
          (List.range' (i + 1) ((sizeOfBits bitArray).toNat - (i + 1))))) := by
  by_cases inside : i < (sizeOfBits bitArray).toNat
  · obtain ⟨rest, isRest⟩ : ∃ rest, (sizeOfBits bitArray).toNat - i = rest + 1 :=
      ⟨(sizeOfBits bitArray).toNat - (i + 1), by omega⟩
    have less : (sizeOfBits bitArray).toNat - (i + 1) = rest := by omega
    rw [isRest, less, range'_succ, bitsBehind, atBit, getElem?_eq_none outside]
    rcases readBit bitArray i with reason | bit
    · rfl
    · cases bit <;> rfl
  · rw [atBit_outside (by omega), Nat.sub_eq_zero_of_le (by omega),
      Nat.sub_eq_zero_of_le (by omega)]
    rfl

theorem verdict_multisignatureGas (params : GasParams K) (i : Nat) :
    verdict (multisignatureGas params bitArray signatures (pubKeys.drop i) i
        (setBefore bitArray i))
      = both (atBit (fun key data => verdict (sigVerificationGas params key data)) bitArray pubKeys
          signatures i)
        (verdict (multisignatureGas params bitArray signatures (pubKeys.drop (i + 1)) (i + 1)
          (setBefore bitArray (i + 1)))) := by
  by_cases outside : pubKeys.length ≤ i
  · rw [drop_eq_nil_of_le outside, drop_eq_nil_of_le (by omega), multisignatureGas,
      multisignatureGas]
    exact verdict_bitsBehind outside
  · rw [drop_eq_getElem_cons (not_le.mp outside), multisignatureGas, atBit, setBefore_succ,
      getElem?_eq_getElem (not_le.mp outside)]
    rcases readBit bitArray i with reason | bit
    · rfl
    · cases bit with
      | false => rfl
      | true =>
        cases signatures[setBefore bitArray i]? with
        | none => rfl
        | some signature =>
          rw [if_pos rfl]
          refine verdict_bind fun gas => ?_
          rcases multisignatureGas params bitArray signatures _ (i + 1) _
            with (reason | reason) | later <;> rfl

theorem charging_follows (params : GasParams K) :
    Follows (charging params)
      fun (key : PubKey K) (data : SignatureData Mode) =>
        verdict (sigVerificationGas params key data) where
  leaf key data := by
    rw [sigVerificationGas, leafGas]
    cases keyType : params.keyType key <;> simp [charging, keyType, verdict]
  refused threshold pubKeys data notMulti := by
    rw [sigVerificationGas]
    · rfl
    · exact notMulti
  walked threshold pubKeys bitArray signatures _ ok := by
    rw [sigVerificationGas]
    refine ends_iff ok (max pubKeys.length (sizeOfBits bitArray).toNat)
      (fun i => verdict (multisignatureGas params bitArray signatures (pubKeys.drop i) i
        (setBefore bitArray i))) (verdict_multisignatureGas params) ?_ fun i outside =>
      atBit_outside (by omega)
    rw [drop_eq_nil_of_le (le_max_left _ _), multisignatureGas,
      Nat.sub_eq_zero_of_le (le_max_right _ _)]
    rfl
  judged threshold pubKeys data ok ran := by
    cases data with
    | multi bitArray signatures => exact .inr ⟨bitArray, signatures, rfl, trivial⟩
    | single signMode signature =>
      rw [sigVerificationGas] at ran
      · cases ran
        exact .inl ⟨rfl, by simp [charging]⟩
      · simp
    | other =>
      rw [sigVerificationGas] at ran
      · cases ran
        exact .inl ⟨rfl, by simp [charging]⟩
      · simp

/-! ## Verification -/

/-- A leaf key wants a valid signature. A multisig key wants a bit array of its size, no more
signatures than keys, and as many signatures and set bits as its threshold; no bit array at all
for no keys is neither refused nor admitted. -/
def verifying (scheme : Scheme K Mode E) : Judge K Mode where
  leaf key data :=
    match data with
    | .single signMode signature =>
      match scheme.getSignBytes signMode with
      | .ok msg => scheme.verifySignature key msg signature
      | .error _ => false
    | _ => false
  refuses threshold keys data :=
    match data with
    | .single signMode _ => ∃ reason, scheme.getSignBytes signMode = .error reason
    | .multi bitArray signatures => sizeOfBits bitArray ≠ keys ∨ signatures.length < threshold
      ∨ keys < signatures.length
      ∨ ∃ bA, bitArray = some bA ∧ bA.numTrueBitsBefore keys < threshold
    | .other => True
  admits threshold keys bitArray signatures := ∃ bA, bitArray = some bA ∧ bA.count = keys
    ∧ threshold ≤ signatures ∧ signatures ≤ keys ∧ threshold ≤ bA.numTrueBitsBefore keys

theorem verdict_verifyKey (scheme : Scheme K Mode E) (key : PubKey K) (data : SignatureData Mode)
    (i sigIndex : Nat) :
    verdict (verifyKey scheme key data i sigIndex) = verdict (verifyKey scheme key data 0 0) := by
  cases data with
  | other => cases key <;> simp [verifyKey, verdict]
  | multi bitArray signatures => cases key <;> simp [verifyKey, verdict]
  | single signMode signature =>
    rw [verifyKey, verifyKey, verifySingle, verifySingle]
    cases scheme.getSignBytes signMode with
    | error reason => rfl
    | ok msg =>
      cases key with
      | multisig threshold pubKeys => rfl
      | leaf key => cases valid : scheme.verifySignature key msg signature <;> simp [verdict, valid]

theorem verdict_verifyKeys (scheme : Scheme K Mode E) (size : sizeOfBits bitArray = pubKeys.length)
    (i : Nat) :
    verdict (verifyKeys scheme bitArray signatures (pubKeys.drop i) i (setBefore bitArray i))
      = both (atBit (fun key data => verdict (verifyKey scheme key data 0 0)) bitArray pubKeys
          signatures i)
        (verdict (verifyKeys scheme bitArray signatures (pubKeys.drop (i + 1)) (i + 1)
          (setBefore bitArray (i + 1)))) := by
  by_cases outside : pubKeys.length ≤ i
  · rw [drop_eq_nil_of_le outside, drop_eq_nil_of_le (by omega), verifyKeys, verifyKeys,
      atBit_outside (by omega)]
    rfl
  · rw [drop_eq_getElem_cons (not_le.mp outside), verifyKeys, atBit, setBefore_succ,
      getElem?_eq_getElem (not_le.mp outside)]
    have isBit : (bitAt bitArray i : Checked E Bool) = orPanic (readBit bitArray i) := by
      cases bitArray <;> rfl
    rw [isBit]
    rcases readBit bitArray i with reason | bit
    · rfl
    · cases bit with
      | false => rfl
      | true =>
        cases signatures[setBefore bitArray i]? with
        | none => rfl
        | some signature =>
          dsimp only [orPanic, Option.bind_eq_bind, Option.bind_some]
          rw [← verdict_verifyKey scheme _ signature i (setBefore bitArray i)]
          rcases verifyKey scheme _ signature i _ with (reason | reason) | _ <;> rfl

theorem checkSizes_of_refused {threshold keys signatures : Nat}
    (refused : sizeOfBits bitArray ≠ keys ∨ signatures < threshold ∨ keys < signatures
      ∨ ∃ bA, bitArray = some bA ∧ bA.numTrueBitsBefore keys < threshold) :
    ∃ reason, (checkSizes threshold keys bitArray signatures : Checked E Unit)
      = .error (.error reason) := by
  unfold checkSizes
  split_ifs with size count
  · exact ⟨_, rfl⟩
  · exact ⟨_, rfl⟩
  · obtain ⟨bA, rfl, few⟩ : ∃ bA, bitArray = some bA ∧ bA.numTrueBitsBefore keys < threshold := by
      rcases refused with sizes | less | more | few
      · exact absurd (not_not.mp size).symm sizes
      · exact absurd (.inl less) count
      · exact absurd (.inr more) count
      · exact few
    simp only [trueBitsBefore, bind, Except.bind, if_pos few]
    exact ⟨_, rfl⟩

theorem checkSizes_of_admitted {threshold keys signatures : Nat} {bA : CompactBitArray}
    (size : bA.count = keys) (least : threshold ≤ signatures) (most : signatures ≤ keys)
    (enough : threshold ≤ bA.numTrueBitsBefore keys) :
    (checkSizes threshold keys (some bA) signatures : Checked E Unit) = .ok () := by
  rw [checkSizes, sizeOfBits, if_neg (not_not.mpr size.symm), if_neg (by omega)]
  exact if_neg (not_lt.mpr enough)

theorem verifying_follows (scheme : Scheme K Mode E) :
    Follows (verifying scheme)
      fun (key : PubKey K) (data : SignatureData Mode) =>
        verdict (verifyKey scheme key data 0 0) where
  leaf key data := by
    cases data with
    | other => simp [verifyKey, verdict, verifying]
    | multi bitArray signatures => simp [verifyKey, verdict, verifying]
    | single signMode signature =>
      rw [verifyKey, verifySingle, verifying]
      cases signed : scheme.getSignBytes signMode with
      | error reason => simp [verdict, signed]
      | ok msg => cases valid : scheme.verifySignature key msg signature <;>
          simp [verdict, signed, valid]
  refused threshold pubKeys data refuses := by
    cases data with
    | other => simp [verifyKey, verdict]
    | single signMode signature =>
      obtain ⟨reason, isReason⟩ := refuses
      rw [verifyKey, verifySingle, isReason]
      rfl
    | multi bitArray signatures =>
      obtain ⟨reason, isReason⟩ := checkSizes_of_refused (E := E) refuses
      rw [verifyKey, isReason]
      rfl
  walked threshold pubKeys bitArray signatures admits ok := by
    obtain ⟨bA, rfl, size, least, most, enough⟩ := admits
    rw [verifyKey, checkSizes_of_admitted size least most enough]
    refine ends_iff ok pubKeys.length
      (fun i => verdict (verifyKeys scheme (some bA) signatures (pubKeys.drop i) i
        (setBefore (some bA) i))) (verdict_verifyKeys scheme size) ?_ fun i outside =>
      atBit_outside (by rw [sizeOfBits, size]; omega)
    rw [drop_length, verifyKeys]
    rfl
  judged threshold pubKeys data ok ran := by
    cases data with
    | other =>
      rw [verifyKey] at ran
      · cases ran
        exact .inl ⟨rfl, trivial⟩
    | single signMode signature =>
      rw [verifyKey, verifySingle] at ran
      cases signed : scheme.getSignBytes signMode with
      | error reason =>
        rw [signed] at ran
        cases ran
        exact .inl ⟨rfl, reason, signed⟩
      | ok msg =>
        rw [signed] at ran
        cases ran
    | multi bitArray signatures =>
      by_cases refused : (verifying scheme).refuses threshold pubKeys.length
          (.multi bitArray signatures)
      · obtain ⟨reason, isReason⟩ := checkSizes_of_refused (E := E) refused
        rw [verifyKey, isReason] at ran
        cases ran
        exact .inl ⟨rfl, refused⟩
      · refine .inr ⟨bitArray, signatures, rfl, ?_⟩
        simp only [verifying, not_or, not_not, not_lt, not_exists, not_and] at refused
        obtain ⟨size, least, most, enough⟩ := refused
        cases bitArray with
        | some bA => exact ⟨bA, rfl, size, least, most, enough bA rfl⟩
        | none =>
          rw [verifyKey, checkSizes, if_neg (not_not.mpr size.symm), if_neg (by omega)] at ran
          cases ran

end Gas

def sampleGas : GasParams Byte := ⟨fun _ => .secp256k1, 1000⟩

end AtomOneSdk.Crypto
