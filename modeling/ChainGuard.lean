import ChainGuard.Evm.BatchSignature
import ChainGuard.Evm.BlockHistory
import ChainGuard.Evm.BridgedApprovals
import ChainGuard.Evm.EmergencyUnlock
import ChainGuard.Evm.ProposalFlags
import ChainGuard.Evm.ShareCommitments
import ChainGuard.Evm.SponsoredRates
import ChainGuard.Evm.Supply
import ChainGuard.Evm.TokenOwnership
import ChainGuard.Link.AccessStatements
import ChainGuard.Link.AccessVerifiers
import ChainGuard.Link.CiphertextPayloads
import ChainGuard.Link.DelayOutputs
import ChainGuard.Link.FheAccumulators
import ChainGuard.Link.FheRelease
import ChainGuard.Link.IdentityRegistries
import ChainGuard.Link.KeeperRelay
import ChainGuard.Link.KeyRevocation
import ChainGuard.Link.Revocation
import ChainGuard.Link.SponsoredOperations
import ChainGuard.Link.SuppliedKeys
import ChainGuard.OffChain.AccessWitness
import ChainGuard.OffChain.BlsKeyring
import ChainGuard.OffChain.CredentialOwnership
import ChainGuard.OffChain.CryptoWorkerPool
import ChainGuard.OffChain.EnvelopeGC
import ChainGuard.OffChain.FieldSharing
import ChainGuard.OffChain.GatewayHealth
import ChainGuard.OffChain.GatewayPool
import ChainGuard.OffChain.IpfsProxy
import ChainGuard.OffChain.KeyringAtomicity
import ChainGuard.OffChain.KeyringLocks
import ChainGuard.OffChain.LegacyShares
import ChainGuard.OffChain.NotificationDelivery
import ChainGuard.OffChain.ProactiveSharing
import ChainGuard.OffChain.RelayedBroadcasts
import ChainGuard.OffChain.RelayedJobs
import ChainGuard.OffChain.RotatedShares
import ChainGuard.OffChain.ShardVerification
import ChainGuard.OffChain.SorobanEventIndexer
import ChainGuard.OffChain.SorobanEventWatcher
import ChainGuard.OffChain.StorageProvider
import ChainGuard.OffChain.StoredCredentials
import ChainGuard.OffChain.StreamAuthenticity
import ChainGuard.OffChain.StreamDigest
import ChainGuard.OffChain.TtlCache
import ChainGuard.OffChain.TtlRelayer
import ChainGuard.Soroban.BatchAuthenticity
import ChainGuard.Soroban.CurveOperations
import ChainGuard.Soroban.Deactivation
import ChainGuard.Soroban.EmergencyUnlock
import ChainGuard.Soroban.RelayedRevocations
import ChainGuard.Soroban.ThresholdNonces
import ChainGuard.Soroban.TokenAccounting
