import Ezpds.Firehose.Retention
import Ezpds.Firehose.Sequencer
import Ezpds.Library.Run
import Ezpds.Firehose.Frontier
import Ezpds.Firehose.SequenceNumbers
import Ezpds.Firehose.Replay
import Ezpds.Firehose.Session
import Ezpds.Firehose.Delivery
import Ezpds.Firehose.ReplayPruning
import Ezpds.Firehose.ReplayHoles
import Ezpds.Firehose.RetentionSweep
import Ezpds.Library.FixedDigits
import Ezpds.Repo.Tid
import Ezpds.Data.Ipld
import Ezpds.Repo.RecordValue
import Ezpds.Library.Edits
import Ezpds.Repo.Repository
import Ezpds.Repo.ApplyWrites
import Ezpds.Auth.OauthScopes
import Ezpds.Library.SortedSet
import Ezpds.Library.Lowercase
import Ezpds.Auth.PercentCoding
import Ezpds.Pds.RecordWrite
import Ezpds.Pds.WriteRoutes
import Ezpds.Pds.OpLabels
import Ezpds.Pds.ScopeConfinement
import Ezpds.Pds.IntegrityCheck
import Ezpds.Pds.CommitCar
import Ezpds.Library.OwnedStore
import Ezpds.Blocks.System
import Ezpds.Blocks.Safety
import Ezpds.Library.Batch
import Ezpds.Spaces.LtHash
import Ezpds.Spaces.Store
import Ezpds.Spaces.RecordWrite
import Ezpds.Spaces.AtomicCommit
import Ezpds.Spaces.DelegationTokens
import Ezpds.Spaces.Host
import Ezpds.Library.Paging
import Ezpds.Spaces.RepoOps
import Ezpds.Spaces.Oplog
import Ezpds.Spaces.OplogSync
import Ezpds.Library.Varint
import Ezpds.Repo.Car
import Ezpds.Spaces.SpaceCar
import Ezpds.Spaces.RepoCar
import Ezpds.Repo.CarFormat
import Ezpds.Repo.ListRecords
import Ezpds.Repo.DataModel
import Ezpds.Repo.LexiconTermination
import Ezpds.Repo.LexiconIntegers
import Ezpds.Repo.LexiconUnions
import Ezpds.Spaces.ImportRepo
import Ezpds.Spaces.WriterSet
import Ezpds.Spaces.SpaceRevs
import Ezpds.Library.Text
import Ezpds.Spaces.StoredRecords
import Ezpds.Auth.ScopeGrammar
import Ezpds.Auth.AcceptValues
import Ezpds.Auth.ScopeNormal
import Ezpds.Auth.ScopeRequests
import Ezpds.Auth.ScopeChecks
import Ezpds.Auth.AcceptAnswers
import Ezpds.Auth.ScopeAnswers
import Ezpds.Auth.PermissionSets
import Ezpds.Crypto.PlcOperation
import Ezpds.Crypto.PlcJson
import Ezpds.Crypto.PlcVerify
import Ezpds.Crypto.GaloisField
import Ezpds.Crypto.Shamir
import Ezpds.Crypto.Mnemonic
import Ezpds.Crypto.ShareEnvelope
import Ezpds.Repo.LexiconFormats
import Ezpds.Auth.Identifiers
import Ezpds.Blocks.RevTags
import Ezpds.Library.KeyedRows
import Ezpds.Library.Parties
import Ezpds.Oauth.TokenStore
import Ezpds.Oauth.TokenEndpoint
import Ezpds.Oauth.CodeRedemption
import Ezpds.Oauth.FamilyRevocation
import Ezpds.Pds.RefreshChain
import Ezpds.Pds.KeyRotation
import Ezpds.Blobs.Files
import Ezpds.Blobs.References
import Ezpds.Pds.HeadMoves
import Ezpds.Pds.CommitChain
import Ezpds.Pds.Transfers
import Ezpds.Pds.TransferCredentials
import Ezpds.Wallet.CurrentState
import Ezpds.Wallet.SignedOperation
import Ezpds.Wallet.RecoveryOverride
import Ezpds.Wallet.OverrideSound
import Ezpds.Wallet.PlcMonitor
import Ezpds.Wallet.Alerts
import Ezpds.Repo.CarImport
import Ezpds.Wallet.RepoBackup
import Ezpds.Wallet.Restore
import Ezpds.Wallet.ShareRecovery
import Ezpds.Wallet.EpilogueKept
import Ezpds.Library.FirstWins
import Ezpds.Pds.CommitHistory
import Ezpds.Pds.ReadAfterWrite
import Ezpds.Accounts.Lifecycle
import Ezpds.Accounts.Machine
import Ezpds.Accounts.Reaper
import Ezpds.Accounts.Announcements
import Ezpds.Recovery.EscrowRelease
import Ezpds.Agents.Identities
import Ezpds.Agents.ClaimCeremony
import Ezpds.Agents.ClaimIntegrity
import Ezpds.Agents.ClaimGrant
import Ezpds.Notifications.Worker
import Ezpds.Notifications.Routing
import Ezpds.Wallet.RecoveryEpilogue
import Ezpds.Firehose.Frames
import Ezpds.Library.Fueled
import Ezpds.Repo.AtUri
import Ezpds.Repo.Lexicon
import Ezpds.Crypto.ShareParsing
import Ezpds.Pds.LabelState
import Ezpds.Pds.FeedMerge
import Ezpds.Library.LastWins
import Ezpds.Notifications.Padding
import Ezpds.Spaces.SpaceCommit
import Ezpds.Auth.RateLimit
import Ezpds.Auth.RetryAfter
import Ezpds.Spaces.SpaceUri
import Ezpds.Spaces.StructuredFields
import Ezpds.Spaces.StructuredValid
import Ezpds.Spaces.StructuredRoundTrip
import Ezpds.Spaces.HttpSignature
import Ezpds.Wallet.SweepHistory
import Ezpds.Crypto.SignatureTwins
import Ezpds.Crypto.AnyS
import Ezpds.Library.CappedLog
import Ezpds.Library.Rounds
import Ezpds.Ceremonies.Journal
import Ezpds.Wallet.ClaimOperation
import Ezpds.Wallet.ReviewedDiff
import Ezpds.Wallet.Rekey
import Ezpds.Wallet.BlobDrain
import Ezpds.Wallet.DrainEnds
import Ezpds.Wallet.DrainTermination
import Ezpds.Wallet.Outbound
import Ezpds.Wallet.Cutover
import Ezpds.Wallet.CutoverComplete
import Ezpds.Blobs.RecordBlobs
import Ezpds.Blobs.Mirror
import Ezpds.Blobs.MirrorSync
import Ezpds.Blobs.MirrorRecovery
import Ezpds.Blobs.MirrorScrub
