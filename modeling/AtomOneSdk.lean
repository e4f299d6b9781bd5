import AtomOneSdk.Authz.Expiry
import AtomOneSdk.BaseApp.Atomicity
import AtomOneSdk.Crypto.Multisig
import AtomOneSdk.DynamicFee.Prices
import AtomOneSdk.Epochs.Properties
import AtomOneSdk.Gov.GenesisProperties
import AtomOneSdk.Gov.SlashDeactivation
import AtomOneSdk.Gov.TallyExact
import AtomOneSdk.Mempool.Properties
import AtomOneSdk.Proposals.ParamsUpdate
import AtomOneSdk.Proposals.QuorumRange
import AtomOneSdk.Staking.SlashProperties
import AtomOneSdk.Staking.UnbondingRuns
import AtomOneSdk.UnifiedDiff.Accepted
import AtomOneSdk.Vesting.Properties
import AtomOneSdk.DynamicFee.Genesis
import AtomOneSdk.Mempool.Indices
import AtomOneSdk.Crypto.VerificationGas
import AtomOneSdk.Lib.Interleave
import AtomOneSdk.Mempool.SenderNonce
import AtomOneSdk.Types.Time
