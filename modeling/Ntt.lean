import Ntt.Lib.BigEndian
import Ntt.Lib.BitSet
import Ntt.Lib.Ballot
import Ntt.Lib.Bitmap
import Ntt.Lib.Buffer
import Ntt.Lib.Decimal
import Ntt.Lib.Hex
import Ntt.Lib.Interleaving
import Ntt.Lib.Throwing
import Ntt.Lib.Keyset
import Ntt.Lib.Limiter
import Ntt.Lib.Linking
import Ntt.Lib.Lockstep
import Ntt.Lib.Loop
import Ntt.Lib.Machine
import Ntt.Lib.Network
import Ntt.Lib.History
import Ntt.Lib.Reader
import Ntt.Lib.Resumption
import Ntt.Lib.SwapRemove
import Ntt.Lib.Tally
import Ntt.Lib.TokenBucket
import Ntt.Lib.Trace
import Ntt.Lib.Transducer
import Ntt.Lib.Writes
import Ntt.Evm.Basic
import Ntt.Evm.TrimmedAmount
import Ntt.Evm.RateLimiter
import Ntt.Evm.RateLimiterSafety
import Ntt.Evm.TransceiverRegistry
import Ntt.Evm.RegistryInvariant
import Ntt.Evm.TransceiverStructs
import Ntt.Evm.WireFormat
import Ntt.Evm.Instructions
import Ntt.Evm.Token
import Ntt.Evm.State
import Ntt.Evm.ManagerBase
import Ntt.Evm.NttManager
import Ntt.Evm.Protocol
import Ntt.Evm.Refinement
import Ntt.Evm.Runs
import Ntt.Evm.Redemption
import Ntt.Evm.Approval
import Ntt.Evm.VoteCount
import Ntt.Evm.Authenticity
import Ntt.Evm.Outbound
import Ntt.Evm.Pause
import Ntt.Evm.LimitAdmin
import Ntt.Evm.NoRateLimiting
import Ntt.Evm.Delivery
import Ntt.Evm.Books
import Ntt.Evm.Accounts
import Ntt.Evm.Actions
import Ntt.Evm.Bridge
import Ntt.Evm.Quote
import Ntt.Evm.WormholeTransceiver
import Ntt.Evm.TransceiverProtocol
import Ntt.Evm.Votes
import Ntt.Evm.Endpoint
import Ntt.Evm.NativeValue
import Ntt.Evm.SpecialRelayer
import Ntt.Evm.SpecialRelay
import Ntt.Evm.RelayerPayments
import Ntt.Evm.ExecutionQuoter
import Ntt.Evm.Governance
import Ntt.Evm.GovernanceRuns
import Ntt.Evm.Implementation
import Ntt.Evm.Upgrades
import Ntt.Evm.ManagerUpgrades
import Ntt.Quoter.SignedQuote
import Ntt.Quoter.Agreement
import Ntt.Oracle.Writer
import Ntt.Oracle.Collisions
import Ntt.Solana.Messages
import Ntt.Solana.Codec
import Ntt.Solana.Governance
import Ntt.Solana.RateLimit
import Ntt.Solana.Accounts
import Ntt.Solana.Token
import Ntt.Solana.Program
import Ntt.Solana.ReceiveMessage
import Ntt.Solana.UnverifiedMessage
import Ntt.Solana.Steps
import Ntt.Solana.Registry
import Ntt.Solana.Inbox
import Ntt.Solana.Endpoint
import Ntt.Solana.VoteCount
import Ntt.Solana.Outbox
import Ntt.Solana.Ownership
import Ntt.Solana.TokenAuthority
import Ntt.Solana.Quoter
import Ntt.Sui.Basic
import Ntt.Sui.Messages
import Ntt.Sui.Codec
import Ntt.Sui.RateLimit
import Ntt.Sui.TransceiverRegistry
import Ntt.Sui.State
import Ntt.Sui.RoundTrip
import Ntt.Sui.Quorum
import Ntt.Sui.Approval
import Ntt.Sui.VoteCount
import Ntt.Sui.Outbox
import Ntt.Sui.Custody
import Ntt.Sui.ContractAuth
import Ntt.Sui.Backflow
import Ntt.Relayer.Basic
import Ntt.Relayer.Fees
import Ntt.Relayer.Vaa
import Ntt.Relayer.Database
import Ntt.Relayer.World
import Ntt.Relayer.Listener
import Ntt.Relayer.Worker
import Ntt.Relayer.Cron
import Ntt.Relayer.System
import Ntt.Relayer.Effects
import Ntt.Relayer.Contracts
import Ntt.Relayer.Delivering
import Ntt.Relayer.Reconciling
import Ntt.Relayer.Listening
import Ntt.Relayer.Discipline
import Ntt.Relayer.EventRecording
import Ntt.Relayer.StatusMachine
import Ntt.Relayer.NonceUniqueness
import Ntt.Relayer.NonceAccounting
import Ntt.Relayer.Attempts
import Ntt.Relayer.Sweep
import Ntt.Relayer.RedisStreams
import Ntt.Relayer.QueueContracts
import Ntt.Relayer.QueueSafety
import Ntt.Identity
import Ntt.RateLimits
import Ntt.TrimmedAmounts
import Ntt.VoteCounts
