import KnishIO.Library.ByteString
import KnishIO.Library.Decimal
import KnishIO.Library.Utf8
import KnishIO.Library.Json.RoundTrip
import KnishIO.Library.Json.Sound
import KnishIO.Library.StdMap
import KnishIO.Library.GraphQL
import KnishIO.Library.GraphQL.Landmarks
import KnishIO.Library.HashChain
import KnishIO.Library.Act
import KnishIO.Library.Radix
import KnishIO.Library.Selection
import KnishIO.Library.Rollback
import KnishIO.Molecule.SingleRecipient
import KnishIO.Molecule.Rollback
import KnishIO.Wallet.Splitting
import KnishIO.Molecule.Fusion
import KnishIO.Molecule.AllOrNothing
import KnishIO.Molecule.Kcore
import KnishIO.Utility.BaseConvert
import KnishIO.Utility.BaseConvert32
import KnishIO.Utility.Base64
import KnishIO.CryptoBigint
import KnishIO.CryptoBigint.HexAdd
import KnishIO.Library.CFloat
import KnishIO.Atom
import KnishIO.Atom.Base17
import KnishIO.Wallet
import KnishIO.Wallet.KeySponge
import KnishIO.Wallet.Detection
import KnishIO.Wallet.Encryption
import KnishIO.Molecule
import KnishIO.Molecule.Normalize
import KnishIO.Molecule.Signature
import KnishIO.Molecule.SignVerify
import KnishIO.Molecule.Signing
import KnishIO.Molecule.OneTime
import KnishIO.Molecule.Isotope
import KnishIO.Molecule.Conservation
import KnishIO.Molecule.Binding
import KnishIO.Molecule.Build
import KnishIO.Molecule.ValueBuilders
import KnishIO.Molecule.Json
import KnishIO.Atom.Version4
import KnishIO.Molecule.Reread
import KnishIO.Atom.Faithful
import KnishIO.Molecule.RoundTrip
import KnishIO.Molecule.ContinuId
import KnishIO.Molecule.Conserving
import KnishIO.Molecule.Malformed
import KnishIO.Molecule.Totality
import KnishIO.Molecule.Balancing
import KnishIO.Molecule.SignatureText
import KnishIO.Molecule.Timestamp
import KnishIO.Molecule.Rfc3339
import KnishIO.Molecule.Served
import KnishIO.Molecule.ClientView
import KnishIO.Molecule.ServedVerdict
import KnishIO.Molecule.ServedViews
import KnishIO.Molecule.MetaForms
import KnishIO.Molecule.ServedRoundTrip
import KnishIO.Molecule.AtomOrder
import KnishIO.Molecule.ServedOrder
import KnishIO.Response
import KnishIO.Client
import KnishIO.Client.Operations
import KnishIO.Client.Authorization
import KnishIO.Client.Trace
import KnishIO.Client.Signers
import KnishIO.Client.Login
import KnishIO.Client.OneTimeKeys
import KnishIO.Client.Session
import KnishIO.Client.Defined
import KnishIO.Client.ValueOperations
import KnishIO.Client.Progress
import KnishIO.Client.Debits
import KnishIO.Client.Units
import KnishIO.Client.Writing
import KnishIO.Client.Rebinding
import KnishIO.Client.LoginProtocol
import KnishIO.Client.VersionRuns
import KnishIO.Client.UserRuns
import KnishIO.Client.Lookups
import KnishIO.Storage.SecretEnvelope
import KnishIO.Storage.Codecs
import KnishIO.Storage.Sealing
import KnishIO.Storage.SecretStorageProvider
import KnishIO.Storage.Records
import KnishIO.Storage.Refinement
import KnishIO.Storage.Atomicity
import KnishIO.Storage.Recovery
import KnishIO.Storage.Authenticity
import KnishIO.Storage.Interchange
import KnishIO.Storage.StorageBackend
import KnishIO.Storage.Persistence
import KnishIO.Storage.Durability
import KnishIO.Storage.SharedFile
import KnishIO.Http.Operation
import KnishIO.Http.Bypass
import KnishIO.Http.GraphQLClient
import KnishIO.Http.FailClosed
import KnishIO.Http.Requests
import KnishIO.Wallet.Messages
import KnishIO.Molecule.Chunking
import KnishIO.Response.Tolerance
import KnishIO.Library.Loop
import KnishIO.Keccak
import KnishIO.Keccak.Lanes
import KnishIO.Keccak.Steps
import KnishIO.Library.SelfInverse
import KnishIO.Library.Sponge
import KnishIO.Keccak.Permutation
import KnishIO.Keccak.Padding
import KnishIO.Keccak.Sponge
import KnishIO.Wallet.Seeds
import KnishIO.Library.Lockstep
import KnishIO.Http.Sealed
import KnishIO.Http.Statistics
import KnishIO.Client.Funding
import KnishIO.Client.ValueRuns
import KnishIO.Client.Simulation
import KnishIO.Http.Session
import KnishIO.Client.Balances
import KnishIO.Client.FusionRuns
import KnishIO.Molecule.Serving
import KnishIO.Client.ServedRuns
