import Hns.Dnssec.Table
import Hns.Resolver.Delegated

/-!
# A server by table

A network whose servers answer the questions of a list of responses
(`Environment.answering`), and the delegation of a zone that is signed with the
key of a table.
-/

namespace Hns

open DnsName

/-- The network of a list of responses, at a time. -/
def Environment.answering (responses : List DnsMessage) (now : DnssecTime) : Environment Unit where
  exchangeUdp _ query s :=
    let reply : Except ParseError (List UInt8) := do
      let message ← DnsMessage.parse query
      let response ← Except.ofOption .unexpectedEof
        (responses.find? fun response => response.questions = message.questions)
      { response with header := { response.header with id := message.header.id } }.encode ⟨65535⟩
    match reply with
    | .ok octets => .ok octets s
    | .error _ => .error (.dnsTransport "timed out") s
  exchangeTcp _ _ s := .error (.dnsTransport "connection refused") s
  nextDnsQueryId s := .ok 0x4d01 s
  now s := .ok now s

/-- A response with an answer and an authority section. -/
def DnsMessage.ofSections (rcode : UInt16) (qname : DnsName) (qtype : RecordType)
    (answers authorities : List ResourceRecord) : DnsMessage where
  header := ⟨0x4d01, ⟨0x8400 ||| rcode⟩, 1, UInt16.ofNat answers.length,
    UInt16.ofNat authorities.length, 0⟩
  questions := [⟨qname, qtype, dnsClassIn⟩]
  answers := answers
  authorities := authorities
  additionals := []

namespace SignatureTable

variable (table : SignatureTable)

/-- The digest of the key of the table. -/
abbrev sha2 (digest : Hash) : Sha2 where
  sha256 data := if data = wire table.apex.labels ++ table.keyRdata then digest else .zero
  sha384 _ := .zero
  sha512 _ := .zero

def dsRecord (digest : Hash) : ResourceRecord :=
  ⟨table.apex, .ds, classIn, 3600, (keyTag table.keyRdata).toBE ++ [15, dsDigestSha256] ++
    digest.bytes⟩

/-- The delegation of the zone to a server that its glue gives the address of. -/
def delegation (digest : Hash) (server : DnsName) : HnsDelegation where
  rootName := join table.apex.labels
  owner := table.apex
  records := [⟨table.apex, .ns, classIn, 3600, wire server.labels⟩,
    ⟨server, .a, classIn, 3600, [192, 0, 2, 53]⟩, table.dsRecord digest]

/-- The DNSKEY RRset of the zone, signed. -/
def dnskeyResponse : DnsMessage :=
  let dnskey : ZoneRrset := ⟨table.apex, RecordType.dnskey.code, [table.keyRdata]⟩
  .ofSections 0 table.apex .dnskey [table.dnskeyRecord, table.rrsigRecord dnskey table.apex] []

/-- How a request is resolved at the time 1500, with the given responses. -/
def resolve [Sha2] [DnssecCrypto] (digest : Hash) (server : DnsName) (responses : List DnsMessage)
    (request : ResolutionRequest) : EStateM.Result ResolverError Unit ResolutionAnswer :=
  let env := Environment.answering (table.dnskeyResponse :: responses) 1500
  resolveDelegated env (systemDnssecVerifier env) request (table.delegation digest server) ()

end SignatureTable

end Hns
