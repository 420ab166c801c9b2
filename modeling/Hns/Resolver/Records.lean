import Hns.Resolver.Transport

/-!
# Records of a response

How `hns-resolver` picks records from the sections of a response, and what it
reads from them: the target of a CNAME, the addresses of name servers, and the
delegation to a child zone.
-/

namespace Hns

/-! ## Selections -/

def recordsFor (records : List ResourceRecord) (owner : DnsName) (recordType : RecordType) :
    List ResourceRecord :=
  records.filter fun record => record.name = owner ∧ record.recordType = recordType

def recordsOfType (records : List ResourceRecord) (recordType : RecordType) :
    List ResourceRecord :=
  records.filter fun record => record.recordType = recordType

def combinedResponseRecords (response : DnsMessage) : List ResourceRecord :=
  response.answers ++ response.authorities

/-! ## Names and addresses -/

def recordNameRdata (record : ResourceRecord) : Option DnsName :=
  match DnsName.parseWire record.rdata 0 with
  | .ok (name, stop) => if stop = record.rdata.length then some name else none
  | .error _ => none

def cnameTarget (cnameRrset : List ResourceRecord) : Except ResolverError DnsName :=
  match cnameRrset with
  | [record] =>
    if record.recordType ≠ .cname then .error .dnssecFailed
    else Except.ofOption .dnssecFailed (recordNameRdata record)
  | _ => .error .dnssecFailed

/-- The items in the order of their first occurrence. -/
def firstOccurrences {α : Type} [DecidableEq α] (items : List α) : List α :=
  items.foldl (fun seen item => if item ∈ seen then seen else seen ++ [item]) []

/-- The address of an A or AAAA record. -/
def recordAddress (record : ResourceRecord) : Option IpAddr :=
  if h : record.recordType = .a ∧ record.rdata.length = 4 then some (.v4 ⟨record.rdata, h.2⟩)
  else if h : record.recordType = .aaaa ∧ record.rdata.length = 16 then
    some (.v6 ⟨record.rdata, h.2⟩)
  else none

/-- The addresses that the records give for the name servers. -/
def addressesOf (nsRrset records : List ResourceRecord) : List SocketAddr :=
  let nsNames := firstOccurrences (nsRrset.filterMap recordNameRdata)
  firstOccurrences <| nsNames.flatMap fun nsName =>
    ((records.filter fun record => record.name = nsName).filterMap recordAddress).map fun ip =>
      ⟨ip, 53⟩

structure HnsDelegation where
  rootName : List Char
  owner : DnsName
  records : List ResourceRecord

def nameserverAddresses (delegation : HnsDelegation) : List SocketAddr :=
  addressesOf (recordsFor delegation.records delegation.owner .ns) delegation.records

def referralNameserverAddresses (nsRrset additionals : List ResourceRecord) : List SocketAddr :=
  addressesOf nsRrset additionals

/-! ## Referrals -/

structure ChildReferral where
  owner : DnsName
  dsRrset : List ResourceRecord
  dsRrsigRrset : List ResourceRecord
  servers : List SocketAddr

/-- The last of the names with the most labels. -/
def deepestName : List DnsName → Option DnsName
  | [] => none
  | name :: names =>
    match deepestName names with
    | none => some name
    | some other => if other.labels.length < name.labels.length then some name else some other

/-- The owners of NS records that are names of child zones of the request. -/
def childOwners (response : DnsMessage) (parentOwner requestName : DnsName) : List DnsName :=
  ((recordsOfType response.authorities .ns).map ResourceRecord.name).filter fun owner =>
    owner ≠ parentOwner ∧ owner.isSubdomainOrEqual parentOwner ∧
      requestName.isSubdomainOrEqual owner

def childReferral (response : DnsMessage) (parentOwner requestName : DnsName) :
    Option ChildReferral := do
  let owner ← deepestName (childOwners response parentOwner requestName)
  let nsRrset := recordsFor response.authorities owner .ns
  let dsRrset := recordsFor response.authorities owner .ds
  let dsRrsigRrset := recordsFor response.authorities owner .rrsig
  if nsRrset = [] ∨ dsRrset = [] ∨ dsRrsigRrset = [] then none
  else
    return {
      owner := owner
      dsRrset := dsRrset
      dsRrsigRrset := dsRrsigRrset
      servers := referralNameserverAddresses nsRrset response.additionals }

end Hns
