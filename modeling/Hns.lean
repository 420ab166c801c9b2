import Hns.Lib.Octets
import Hns.Lib.Table
import Hns.Lib.Fallible
import Hns.Lib.Distinct
import Hns.Lib.Ancestry
import Hns.Lib.Bits
import Hns.Core.Hash
import Hns.Core.Header
import Hns.Core.Pow
import Hns.Chain.Store
import Hns.Chain.Difficulty
import Hns.Chain.Insert
import Hns.Chain.Tree
import Hns.Chain.Loop
import Hns.Chain.Canonical
import Hns.Chain.Refine
import Hns.Chain.Run
import Hns.Chain.Retarget
import Hns.Chain.Sample
import Hns.Chain.Invariants
import Hns.Chain.Batch
import Hns.Chain.Recovery
import Hns.Chain.Hsd
import Hns.Sync.Peers
import Hns.Sync.Locator
import Hns.Sync.Runner
import Hns.Sync.Progress
import Hns.Sync.Reach
import Hns.Urkel.Proof
import Hns.Urkel.Tree
import Hns.Urkel.Sound
import Hns.Dane.Der
import Hns.Dane.Policy
import Hns.Transport.Verifier
import Hns.Transport.Anchor
import Hns.Lib.Code
import Hns.Dns.Name
import Hns.Core.Bytes
import Hns.Dns.Record
import Hns.Dnssec.Record
import Hns.Dnssec.Canonical
import Hns.Dnssec.Validate
import Hns.Dnssec.Chain
import Hns.Dnssec.Anchor
import Hns.Dnssec.Denial
import Hns.Dnssec.Signed
import Hns.Dnssec.Zone
import Hns.Dnssec.Bitmap
import Hns.Lib.Lex
import Hns.Dns.Order
import Hns.Dns.Text
import Hns.Resolver.Basic
import Hns.Dnssec.Nsec
import Hns.Dnssec.Table
import Hns.Dnssec.Nsec3
import Hns.Core.Address
import Hns.Dns.Message
import Hns.Resolver.Transport
import Hns.Resolver.Records
import Hns.Resolver.Verifier
import Hns.Resolver.Delegated
import Hns.Resolver.Answers
import Hns.Resolver.Wildcard
import Hns.Resolver.Table
import Hns.Resolver.Links
import Hns.Resolver.Served
import Hns.Dnssec.Single
import Hns.Resolver.NameErrors
import Hns.Resolver.NoData
import Hns.Lib.Sip
import Hns.Lib.Chars
import Hns.Transport.State
import Hns.Core.HandshakeName
import Hns.Resolver.Roots
import Hns.Gateway.Basic
import Hns.Gateway.Handle
import Hns.Gateway.Closed
import Hns.Gateway.Chains
import Hns.Resolver.Values
import Hns.Sync.Session
import Hns.Sync.Proofs
import Hns.Dns.Compression
import Hns.Resolver.Compressed
import Hns.Resolver.Chained
import Hns.Resolver.Delegating
import Hns.Transport.Sharing
import Hns.Sync.Pending
import Hns.Sync.Handshake
import Hns.Transport.FailClosed
import Hns.Lib.Reader
import Hns.Sync.Codec
import Hns.Sync.Frame
import Hns.Sync.Stream
import Hns.Chain.Sqlite
import Hns.Chain.Rejected
import Hns.Dns.Encoded
import Hns.Dnssec.Pinned
import Hns.Dnssec.Raw
import Hns.Dnssec.Conforming
import Hns.Resolver.ChainEnd
import Hns.Sync.Racing
import Hns.Sync.Stalled
import Hns.Core.Utf8
import Hns.Core.Compact
import Hns.Chain.Rebits
import Hns.Sync.Coverage
import Hns.Lib.Leaders
import Hns.Sync.Selection
import Hns.Urkel.Wire
import Hns.Urkel.Complete
import Hns.Sync.Malformed
import Hns.Lib.Receiving
import Hns.Sync.Requests
import Hns.Sync.Discovery
import Hns.Sync.Bounded
import Hns.Chain.Agreement
import Hns.Resolver.Splitting
import Hns.Transport.Http11
import Hns.Dns.Cursor
import Hns.Lib.Reorder
import Hns.Dnssec.Rotation
import Hns.Dane.Presented
import Hns.Dane.Element
import Hns.Dns.Resource
import Hns.Transport.Decoded
import Hns.Transport.Pooled
import Hns.Transport.Wire
import Hns.Transport.AltSvc
import Hns.Transport.Selected
import Hns.Transport.Request
import Hns.Transport.Retried
import Hns.Transport.Received
import Hns.Transport.Framing
import Hns.Transport.Grammar
import Hns.Transport.Strictness
import Hns.Transport.Uri
import Hns.Transport.Injection
import Hns.Lib.Circular
import Hns.Dnssec.Interval
import Hns.Dns.Limits
import Hns.Lib.Window
import Hns.Browser.RateLimiter
import Hns.Lib.HashMap
import Hns.Cache.TtlCache
import Hns.Cache.Lru
import Hns.Resolver.ByteLimit
import Hns.Lib.Bootstring
import Hns.Browser.HostnameAscii
import Hns.Lib.Front
import Hns.Browser.WebSocketFrame
import Hns.Browser.Text
import Hns.Browser.WebSocketSession
import Hns.Dnssec.Windows
import Hns.Lib.Regroup
import Hns.Dnssec.Base32hex
import Hns.Browser.WebSocketSend
import Hns.Dnssec.Service
import Hns.Lib.Atomic
import Hns.Resolver.ValueStore
import Hns.Sync.PeerStore
import Hns.Gateway.ProofProvider
import Hns.Sync.Stored
import Hns.Sync.Inserting
import Hns.Gateway.SyncOnce
import Hns.Dnssec.OptOut
import Hns.Lib.Json
import Hns.Browser.SyncProgress
import Hns.Browser.GatewayHead
import Hns.Browser.SecurityPolicy
import Hns.Browser.ControlHeaders
