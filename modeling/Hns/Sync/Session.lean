import Hns.Core.Address
import Hns.Core.Bytes
import Hns.Core.Header

/-!
# Sessions with a peer

`HeaderSyncSession` of `hns-p2p`: what is done about a packet depends on what
has been asked for (`onPacket`), and headers or a proof are asked for only of a
peer that is ready (`requestHeaders`, `requestProof`).
-/

namespace Hns

def serviceNetwork : UInt64 := 1

def maxInv : ℕ := 50000

def maxAddr : ℕ := 1000

def maxHeaders : ℕ := 2000

inductive P2pError
  | parse (error : ParseError)
  | nonCanonicalVarint
  | countLimit
  | agentTooLong
  | trailingBytes
  | invalidMagic
  | messageTooLarge
  | io (kind : String)
  | connectionClosed
  | sessionDisconnected (reason : String)
  | unexpectedAction
  | storage (message : String)
  deriving DecidableEq

instance : ToString P2pError where
  toString
    | .parse e => "parse error: " ++ toString e
    | .nonCanonicalVarint => "varint is non-canonical"
    | .countLimit => "count exceeds protocol limit"
    | .agentTooLong => "user agent is too long"
    | .trailingBytes => "payload has trailing bytes"
    | .invalidMagic => "invalid network magic"
    | .messageTooLarge => "message exceeds protocol limit"
    | .io kind => "network I/O error: " ++ kind
    | .connectionClosed => "peer closed the connection"
    | .sessionDisconnected reason => "peer session disconnected: " ++ reason
    | .unexpectedAction => "unexpected peer session action"
    | .storage message => "peer storage error: " ++ message

/-! ## Packets -/

structure NetAddress where
  time : UInt64
  services : UInt64
  address : IpAddr
  port : UInt16
  deriving DecidableEq

structure VersionPacket where
  version : UInt32
  services : UInt64
  time : UInt64
  remote : NetAddress
  nonce : Octets 8
  agent : List Char
  height : UInt32
  noRelay : Bool
  deriving DecidableEq

structure LocatorPacket where
  locator : List Hash
  stop : Hash
  deriving DecidableEq

structure ProofRequest where
  root : Hash
  key : Hash
  deriving DecidableEq

structure ProofPacket where
  root : Hash
  key : Hash
  proof : List UInt8
  deriving DecidableEq

inductive Packet
  | version (version : VersionPacket)
  | verack
  | ping (nonce : Octets 8)
  | pong (nonce : Octets 8)
  | getAddr
  | addr (items : List NetAddress)
  | getHeaders (locator : LocatorPacket)
  | headers (items : List BlockHeader)
  | sendHeaders
  | getProof (request : ProofRequest)
  | proof (packet : ProofPacket)
  | unknown (packetType : UInt8) (payload : List UInt8)
  deriving DecidableEq

/-! ## Sessions -/

inductive HeaderSyncState
  | awaitingVersion
  | awaitingVerack
  | ready
  | headersRequested
  | proofRequested
  | closed
  deriving DecidableEq

inductive HeaderSyncAction
  | send (packet : Packet)
  | ready
  | headers (items : List BlockHeader)
  | proof (packet : ProofPacket)
  | disconnect (reason : String)
  deriving DecidableEq

structure HeaderSyncSession where
  state : HeaderSyncState
  localVersion : VersionPacket
  remoteVersion : Option VersionPacket
  ackReceived : Bool
  deriving DecidableEq

namespace HeaderSyncSession

def new (localVersion : VersionPacket) : HeaderSyncSession :=
  ⟨.awaitingVersion, localVersion, none, false⟩

/-- The state after a packet, and what is to be done. -/
def onPacket (session : HeaderSyncSession) (packet : Packet) :
    HeaderSyncSession × List HeaderSyncAction :=
  match session.state, packet with
  | .awaitingVersion, .version version =>
    if version.version < 1 ∨ version.services &&& serviceNetwork = 0 then
      ({ session with state := .closed }, [.disconnect "peer lacks required network service"])
    else if session.ackReceived then
      ({ session with remoteVersion := some version, state := .ready }, [.send .verack, .ready])
    else
      ({ session with remoteVersion := some version, state := .awaitingVerack }, [.send .verack])
  | .awaitingVersion, .verack => ({ session with ackReceived := true }, [])
  | .awaitingVerack, .verack =>
    ({ session with ackReceived := true, state := .ready }, [.ready])
  | .headersRequested, .headers items => ({ session with state := .ready }, [.headers items])
  | .proofRequested, .proof proof => ({ session with state := .ready }, [.proof proof])
  | .closed, _ => (session, [.disconnect "session is closed"])
  | _, .getAddr | _, .addr _ | _, .sendHeaders | _, .unknown _ _ => (session, [])
  | _, .ping nonce => (session, [.send (.pong nonce)])
  | _, .pong _ => (session, [])
  | _, _ => (session, [.disconnect "unexpected packet for sync state"])

def requestHeaders (session : HeaderSyncSession) (locator : List Hash) (stop : Hash) :
    HeaderSyncSession × Except P2pError HeaderSyncAction :=
  if session.state ≠ .ready then
    (session, .ok (.disconnect "headers requested before peer ready"))
  else if maxInv < locator.length then (session, .error .countLimit)
  else
    ({ session with state := .headersRequested }, .ok (.send (.getHeaders ⟨locator, stop⟩)))

def requestProof (session : HeaderSyncSession) (root key : Hash) :
    HeaderSyncSession × HeaderSyncAction :=
  if session.state ≠ .ready then
    (session, .disconnect "proof requested before peer ready")
  else ({ session with state := .proofRequested }, .send (.getProof ⟨root, key⟩))

end HeaderSyncSession

end Hns
