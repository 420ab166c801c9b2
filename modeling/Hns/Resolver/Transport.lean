import Hns.Core.Address
import Hns.Dns.Message
import Hns.Resolver.Basic

/-!
# Queries

How `hns-resolver` asks a server: over UDP, and over TCP when there is no usable
answer, or a truncated one. What the resolver finds outside, the network, the
clock and the counter of the query ids, is an `Environment`, which may change
with every step.
-/

namespace Hns

open EStateM (checked attempt)

def dnsClassIn : UInt16 := 1

def dnsOptRecordType : UInt16 := 41

def dnssecDoFlag : UInt32 := 0x8000

def dnsRcodeNoerror : UInt8 := 0

def dnsRcodeNxdomain : UInt8 := 3

def defaultDnsUdpPayload : ℕ := 1232

/-- The network, the clock and the counter of the query ids. -/
structure Environment (σ : Type) where
  exchangeUdp : SocketAddr → List UInt8 → EStateM ResolverError σ (List UInt8)
  exchangeTcp : SocketAddr → List UInt8 → EStateM ResolverError σ (List UInt8)
  /-- The counter, which other threads count up too. -/
  nextDnsQueryId : EStateM ResolverError σ UInt16
  /-- The seconds since the epoch, or that the clock stands before it. -/
  now : EStateM ResolverError σ ℕ

def buildDnsQuery (id : UInt16) (qname : DnsName) (qtype : RecordType) :
    Except ResolverError (List UInt8) :=
  let message : DnsMessage := {
    header := ⟨id, ⟨0⟩, 1, 0, 0, 1⟩
    questions := [⟨qname, qtype, dnsClassIn⟩]
    answers := []
    authorities := []
    additionals := [⟨.root, .unknown dnsOptRecordType, UInt16.ofNat defaultDnsUdpPayload,
      dnssecDoFlag, []⟩] }
  (message.encode ⟨defaultDnsUdpPayload⟩).mapError fun _ => .invalidDnsResponse

/-- Whether a message answers the question that has been asked. -/
def DnsMessage.respondsTo (message : DnsMessage) (id : UInt16) (qname : DnsName)
    (qtype : RecordType) : Bool :=
  message.header.id = id ∧ message.header.flags.isResponse ∧ message.header.flags.opcode = 0 ∧
    (message.header.flags.rcode = dnsRcodeNoerror ∨
      message.header.flags.rcode = dnsRcodeNxdomain) ∧
    message.questions = [⟨qname, qtype, dnsClassIn⟩]

def parseDnsResponse (id : UInt16) (qname : DnsName) (qtype : RecordType) (response : List UInt8) :
    Except ResolverError DnsMessage := do
  let message ← (DnsMessage.parse response).mapError fun _ => .invalidDnsResponse
  if !message.respondsTo id qname qtype then throw .invalidDnsResponse
  return message

def dnsQueryShouldRetryTcp : ResolverError → Bool
  | .dnsTransport _ => true
  | .invalidDnsResponse => true
  | _ => false

namespace Environment

variable {σ : Type} (env : Environment σ)

def dnsQueryTcp (server : SocketAddr) (id : UInt16) (qname : DnsName) (qtype : RecordType)
    (query : List UInt8) : EStateM ResolverError σ DnsMessage := do
  let tcpResponse ← env.exchangeTcp server query
  let response ← checked (parseDnsResponse id qname qtype tcpResponse)
  if response.header.flags.truncated then throw .invalidDnsResponse
  return response

def dnsQuery (server : SocketAddr) (qname : DnsName) (qtype : RecordType) :
    EStateM ResolverError σ DnsMessage := do
  let id ← env.nextDnsQueryId
  let query ← checked (buildDnsQuery id qname qtype)
  let udpResponse ← attempt (env.exchangeUdp server query)
  match udpResponse >>= parseDnsResponse id qname qtype with
  | .error error =>
    if dnsQueryShouldRetryTcp error then env.dnsQueryTcp server id qname qtype query
    else throw error
  | .ok response =>
    if response.header.flags.truncated then env.dnsQueryTcp server id qname qtype query
    else return response

end Environment

end Hns
