import Hns.Dnssec.Denial
import Hns.Dnssec.Table
import Hns.Resolver.Basic

/-!
# NSEC records of a zone

The NSEC records of an honest zone form a circle in the canonical order
(`NsecChain`). What the validation takes for a proof from them:

* an empty answer, from the record of the name itself, or from that of a
  wildcard above it (`LacksAt`); it is to be trusted unless the name is a
  delegation or the wildcard hides what is there
  (`noData_of_validateNsecNoData_iff`);
* a name error, from records that cover the name and a wildcard (`Covers`). A
  name without a record of its own is covered, be it that names below it exist,
  and so is nearly every name when the record of a wildcard can be shown under
  the owner behind it (`covers_iff`, `nameError_of_validateNsecNameError_iff`).
-/

namespace Hns

open DnsName

/-- The types a name shows in a denial, those of the denial itself included. -/
def Zone.Shows (zone : Zone) (name : DnsName) (code : UInt16) : Prop :=
  zone.Lists name code ∨ code = RecordType.nsec.code ∨ code = RecordType.rrsig.code

instance (zone : Zone) (name : DnsName) (code : UInt16) : Decidable (zone.Shows name code) :=
  inferInstanceAs (Decidable (_ ∨ _))

theorem Zone.Shows.lt {zone : Zone} {name : DnsName} {code : UInt16} (h : zone.Shows name code)
    (hcodes : ∀ rrset ∈ zone.rrsets, rrset.typeCode.toNat < 8 * 8) : code.toNat < 8 * 8 := by
  rcases h with ⟨rrset, hrrset, -, rfl, -⟩ | rfl | rfl
  · exact hcodes rrset hrrset
  · decide
  · decide

/-- What an empty answer says of a name. -/
structure Zone.NoData (zone : Zone) (name : DnsName) (recordType : RecordType) :
    Prop where
  noData : ¬zone.Holds name recordType
  noCname : ¬zone.Holds name .cname
  notDelegated : zone.IsDelegation name → recordType = .ds
  notAnswered : ¬zone.WildcardAnswers name recordType

/-- What a name error says of a name. -/
structure Zone.NameError (zone : Zone) (name : DnsName) : Prop where
  notExists : ¬zone.Exists name
  notOccluded : ¬zone.Occluded name
  noWildcard : ¬∃ wildcard, zone.SourceOfSynthesis name wildcard

/-- The NSEC records of a zone: every owner has one, which shows its types and the owner behind it,
    and the last one shows the apex. -/
structure NsecChain (zone : SignedZone) : Prop where
  owner : ∀ entry ∈ zone.nsecs, zone.Owner entry.owner
  complete : ∀ name, zone.Owner name → ∃ entry ∈ zone.nsecs, entry.owner = name
  next_owner : ∀ entry ∈ zone.nsecs, zone.Owner entry.next
  next : ∀ entry ∈ zone.nsecs,
    (entry.owner < entry.next ∧ ∀ name, zone.Owner name → ¬(entry.owner < name ∧ name < entry.next)) ∨
      (entry.next = zone.apex ∧ ∀ name, zone.Owner name → name ≤ entry.owner)
  bitmap : ∀ entry ∈ zone.nsecs, ∀ code, entry.bitmap.Has code ↔ zone.Shows entry.owner code

/-- The records form a circle when they do among the names of the RRsets. -/
theorem NsecChain.of_forall {zone : SignedZone}
    (howner : ∀ entry ∈ zone.nsecs, zone.Owner entry.owner ∧ zone.Owner entry.next)
    (hcomplete : ∀ rrset ∈ zone.rrsets, zone.Owner rrset.name →
      ∃ entry ∈ zone.nsecs, entry.owner = rrset.name)
    (hnext : ∀ entry ∈ zone.nsecs,
      (entry.owner < entry.next ∧ ∀ rrset ∈ zone.rrsets, zone.Owner rrset.name →
        ¬(entry.owner < rrset.name ∧ rrset.name < entry.next)) ∨
      (entry.next = zone.apex ∧ ∀ rrset ∈ zone.rrsets, zone.Owner rrset.name →
        rrset.name ≤ entry.owner))
    (hcodes : ∀ rrset ∈ zone.rrsets, rrset.typeCode.toNat < 8 * 8)
    (hwindows : ∀ entry ∈ zone.nsecs, ∀ window ∈ entry.bitmap.windows,
      window.1 = 0 ∧ window.2.length ≤ 8)
    (hbitmap : ∀ entry ∈ zone.nsecs, ∀ n < 8 * 8,
      entry.bitmap.Has (UInt16.ofNat n) ↔ zone.Shows entry.owner (UInt16.ofNat n)) :
    NsecChain zone where
  owner entry hentry := (howner entry hentry).1
  complete := Zone.forall_owner.2 hcomplete
  next_owner entry hentry := (howner entry hentry).2
  next entry hentry := (hnext entry hentry).imp
    (fun h => ⟨h.1, Zone.forall_owner.2 h.2⟩) (fun h => ⟨h.1, Zone.forall_owner.2 h.2⟩)
  bitmap entry hentry := entry.bitmap.has_iff_of_low (hwindows entry hentry)
    (fun _ hcode => hcode.lt hcodes) (hbitmap entry hentry)

/-! ## Records -/

namespace NsecEntry

variable (entry : NsecEntry)

/-- The record under an owner. -/
def record (owner : DnsName) : ResourceRecord := ⟨owner, .nsec, classIn, 0, entry.rdata⟩

variable {entry}

theorem length_rdata_le : entry.rdata.length ≤ 65535 := by
  have hname := entry.next.length_le
  have hbitmap := entry.bitmap.length_octets_le
  rw [rdata, List.length_append, length_wire]
  rw [maxDnsNameLen] at hname
  omega

/-- A record with the data of an entry is read as the entry. -/
theorem fromRecord_of_canonicalRdata {record : ResourceRecord} (htype : record.recordType = .nsec)
    (h : canonicalRdata record = .ok entry.rdata) :
    NsecRecord.fromRecord record = .ok ⟨entry.next, entry.bitmap.octets⟩ := by
  rw [canonicalRdata, htype] at h
  obtain ⟨nsec, hnsec, h⟩ := Except.bind_eq_ok.1 h
  obtain ⟨next, hnext, h⟩ := Except.bind_eq_ok.1 h
  rw [encodeCanonicalName, Except.mapError_eq_ok, encodeWire_eq_ok] at hnext
  cases hnext
  obtain ⟨hnext, hbitmap⟩ := wire_append_inj (Except.ok.inj h)
  rw [hnsec, ← hnext, ← hbitmap]

theorem fromRecord_record (owner : DnsName) (hne : entry.bitmap.octets ≠ []) :
    NsecRecord.fromRecord (entry.record owner) = .ok ⟨entry.next, entry.bitmap.octets⟩ := by
  have hparse := parseWire_wire entry.next [] entry.bitmap.octets
  rw [List.nil_append, List.length_nil, Nat.zero_add] at hparse
  have hlen : ¬entry.rdata.length ≤ (wire entry.next.labels).length := by
    rw [rdata, List.length_append]
    have := List.length_pos_iff.2 hne
    omega
  rw [NsecRecord.fromRecord, if_neg (by simp [record]), NsecRecord.parseRdata]
  refine Except.bind_eq_ok.2 ⟨_, Except.mapError_eq_ok.2 hparse, Except.throw_unless.2 ⟨hlen, ?_⟩⟩
  rw [record, rdata, List.drop_left, TypeBitMap.validateNsecTypeBitMaps_octets]
  rfl

theorem canonicalRdata_record (owner : DnsName) (hne : entry.bitmap.octets ≠ []) :
    canonicalRdata (entry.record owner) = .ok entry.rdata := by
  refine Except.bind_eq_ok.2 ⟨_, fromRecord_record owner hne, ?_⟩
  rw [encodeCanonicalName, encodeWire_eq_ok]
  rfl

theorem hasType_eq (recordType : RecordType) :
    NsecRecord.hasType ⟨entry.next, entry.bitmap.octets⟩ recordType =
      .ok (decide (entry.bitmap.Has recordType.code)) :=
  entry.bitmap.nsecTypeBitMapsContain_octets recordType

end NsecEntry

/-! ## Replays -/

namespace SignedZone

variable {zone : SignedZone}

/-- The RRsets of NSEC records that a zone has signed. -/
theorem exists_nsec_of_publishes {published : ZoneRrset} (h : zone.Publishes published)
    (hcode : RecordType.fromCode published.typeCode = .nsec) :
    ∃ entry ∈ zone.nsecs, published = entry.rrset := by
  cases h with
  | content h =>
    refine absurd ?_ (zone.types published h.1)
    rw [← RecordType.code_fromCode published.typeCode, hcode]
    decide
  | nsec h => exact ⟨_, h, rfl⟩
  | nsec3 h =>
    have hne : RecordType.fromCode RecordType.nsec3.code ≠ .nsec := by decide
    exact absurd hcode hne

section

variable [DnssecCrypto] {dnskeyRrset rrset rrsigRrset : List ResourceRecord}
  {signerName : DnsName} {now : DnssecTime}

omit [DnssecCrypto] in
theorem secureIfAny_eq_secure {α : Type} {test : α → Except DnssecError Bool} {l : List α} :
    secureIfAny test l = .ok .secure ↔ l.anyM test = .ok true := by
  rw [secureIfAny]
  rcases l.anyM test with e | (_ | _) <;> simp [pure, Except.pure]

/-- An NSEC record of a secure RRset is one of the zone, under an owner it is written like. -/
theorem exists_entry (hkeys : zone.HonestKeys dnskeyRrset)
    (h : validateRrsetSignature signerName dnskeyRrset rrset rrsigRrset now = .ok .secure)
    {record : ResourceRecord} (hmem : record ∈ rrset) (htype : record.recordType = .nsec) :
    ∃ entry ∈ zone.nsecs, Expands record.name entry.owner ∧
      NsecRecord.fromRecord record = .ok ⟨entry.next, entry.bitmap.octets⟩ := by
  obtain ⟨-, -, published, hpub, hreplays⟩ := exists_published hkeys h
  obtain ⟨entry, hentry, rfl⟩ := exists_nsec_of_publishes hpub
    ((hreplays.recordType record hmem).symm.trans htype)
  obtain ⟨rdata, hrdata, hcanonical⟩ := hreplays.data record hmem
  obtain rfl : rdata = entry.rdata := List.mem_singleton.1 hrdata
  exact ⟨entry, hentry, hreplays.owner record hmem,
    NsecEntry.fromRecord_of_canonicalRdata htype hcanonical⟩

/-- An NSEC record can be shown under every owner it is written like. -/
theorem exists_nsec_signature (hchain : NsecChain zone) (hsigned : zone.SignedAt dnskeyRrset now)
    {entry : NsecEntry} (hentry : entry ∈ zone.nsecs) {owner : DnsName}
    (howner : Expands owner entry.owner) :
    ∃ rrsigRecord, validateRrsetSignature zone.apex dnskeyRrset [entry.record owner] [rrsigRecord]
      now = .ok .secure := by
  have hhas : entry.bitmap.Has RecordType.nsec.code := (hchain.bitmap entry hentry _).2 (.inr (.inl rfl))
  exact exists_signature hsigned (.nsec hentry) ⟨rfl, rfl, howner, entry.rdata, rfl,
    NsecEntry.canonicalRdata_record owner (entry.bitmap.octets_ne_nil hhas),
    NsecEntry.length_rdata_le⟩

/-! ## Empty answers -/

/-- An NSEC record that shows neither the type nor a CNAME, at a name that is written like
    `name`. -/
def LacksAt (zone : SignedZone) (name : DnsName) (recordType : RecordType) : Prop :=
  ∃ owner, zone.Owner owner ∧ Expands name owner ∧ ¬zone.Shows owner recordType.code ∧
    ¬zone.Shows owner RecordType.cname.code

omit [DnssecCrypto] in
theorem nsecLacks_eq_ok_true {record : ResourceRecord} {entry : NsecEntry} {recordType : RecordType}
    (h : NsecRecord.fromRecord record = .ok ⟨entry.next, entry.bitmap.octets⟩) :
    nsecLacks recordType record = .ok true ↔
      ¬entry.bitmap.Has recordType.code ∧ ¬entry.bitmap.Has RecordType.cname.code := by
  rw [nsecLacks, h, Except.ok_bind, NsecEntry.hasType_eq, NsecEntry.hasType_eq]
  by_cases htype : entry.bitmap.Has recordType.code <;>
    simp [htype, pure, Except.pure]

/-- What an accepted empty answer shows. -/
theorem lacksAt_of_secure (hchain : NsecChain zone) {input : NsecNoDataValidationInput}
    (hkeys : zone.HonestKeys input.dnskeyRrset) (h : validateNsecNoData input = .ok .secure) :
    zone.LacksAt input.queryName input.queryType := by
  obtain ⟨hsecure, hany⟩ := thenIfSecure_eq_secure.1 h
  obtain ⟨k, record, hk, htest, -⟩ := Except.anyM_eq_ok_true.1 (secureIfAny_eq_secure.1 hany)
  obtain ⟨hmem, hrecord⟩ := List.mem_filter.1 (List.mem_of_getElem? hk)
  obtain ⟨htype, hname⟩ := of_decide_eq_true hrecord
  obtain ⟨entry, hentry, howner, hread⟩ := exists_entry hkeys hsecure hmem htype
  obtain ⟨hlacks, hcname⟩ := (nsecLacks_eq_ok_true hread).1 htest
  rw [hchain.bitmap entry hentry] at hlacks hcname
  exact ⟨entry.owner, hchain.owner entry hentry, hname ▸ howner, hlacks, hcname⟩

/-- A secure record of the name that shows neither the type nor a CNAME is accepted. -/
theorem validateNsecNoData_single {record : ResourceRecord} {entry : NsecEntry} {name : DnsName}
    {recordType : RecordType} (htype : record.recordType = .nsec) (hname : record.name = name)
    (hread : NsecRecord.fromRecord record = .ok ⟨entry.next, entry.bitmap.octets⟩)
    (hsecure : validateRrsetSignature signerName dnskeyRrset [record] rrsigRrset now = .ok .secure)
    (hlacks : ¬entry.bitmap.Has recordType.code) (hcname : ¬entry.bitmap.Has RecordType.cname.code) :
    validateNsecNoData ⟨signerName, dnskeyRrset, name, recordType, [record], rrsigRrset, now⟩ =
      .ok .secure := by
  refine thenIfSecure_eq_secure.2 ⟨hsecure, ?_⟩
  rw [secureIfAny_eq_secure, Except.anyM_eq_ok_true]
  refine ⟨0, record, ?_, (nsecLacks_eq_ok_true hread).2 ⟨hlacks, hcname⟩, by simp⟩
  simp [htype, hname]

/-- Every such record is accepted. -/
theorem exists_secure_of_lacksAt (hchain : NsecChain zone)
    (hsigned : zone.SignedAt dnskeyRrset now) {name : DnsName} {recordType : RecordType}
    (h : zone.LacksAt name recordType) :
    ∃ nsecRrset nsecRrsigRrset, validateNsecNoData ⟨zone.apex, dnskeyRrset, name, recordType,
      nsecRrset, nsecRrsigRrset, now⟩ = .ok .secure := by
  obtain ⟨owner, howner, hexpands, hlacks, hcname⟩ := h
  obtain ⟨entry, hentry, rfl⟩ := hchain.complete owner howner
  obtain ⟨rrsigRecord, hsecure⟩ := exists_nsec_signature hchain hsigned hentry hexpands
  have hhas : entry.bitmap.Has RecordType.nsec.code :=
    (hchain.bitmap entry hentry _).2 (.inr (.inl rfl))
  have hread := NsecEntry.fromRecord_record name (entry.bitmap.octets_ne_nil hhas)
  rw [← hchain.bitmap entry hentry] at hlacks hcname
  exact ⟨[entry.record name], [rrsigRecord],
    validateNsecNoData_single rfl rfl hread hsecure hlacks hcname⟩

omit [DnssecCrypto] in
/-- The record of a name itself is a denial for all but the data behind a delegation. -/
theorem noData_of_owner {name : DnsName} {recordType : RecordType} (howner : zone.Owner name)
    (hlacks : ¬zone.Shows name recordType.code) (hcname : ¬zone.Shows name RecordType.cname.code)
    (hcut : zone.IsDelegation name → recordType = .ds) : zone.NoData name recordType := by
  rw [Zone.Shows, not_or] at hlacks hcname
  refine ⟨?_, ?_, hcut, fun h => ?_⟩
  · by_cases hdelegation : zone.IsDelegation name
    · rintro ⟨rrset, hrrset, hname, hcode⟩
      refine hlacks.1 ⟨rrset, hrrset, hname, hcode, fun _ => .inr ?_⟩
      rw [hcut hdelegation]
    · rw [← Zone.lists_iff_of_not_isDelegation hdelegation]
      exact hlacks.1
  · by_cases hdelegation : zone.IsDelegation name
    · exact hdelegation.not_holds_cname
    · rw [← Zone.lists_iff_of_not_isDelegation hdelegation]
      exact hcname.1
  · obtain ⟨_, ⟨hnot, -⟩, -⟩ := h
    exact hnot howner.exists

omit [DnssecCrypto] in
theorem not_shows_cname_of_isDelegation {name : DnsName} (h : zone.IsDelegation name) :
    ¬zone.Shows name RecordType.cname.code := by
  rintro (⟨rrset, -, -, -, hcode⟩ | hcode | hcode)
  · exact absurd (hcode h) (by decide)
  · exact absurd hcode (by decide)
  · exact absurd hcode (by decide)

/-- Empty answers for a name are to be trusted just when its own record is not the one at a
    delegation, and no wildcard above it lacks what the name, or a wildcard closer to it, has. -/
theorem noData_of_validateNsecNoData_iff (hchain : NsecChain zone)
    (hkeys : zone.HonestKeys dnskeyRrset) (hsigned : zone.SignedAt dnskeyRrset now)
    (name : DnsName) (recordType : RecordType) :
    (∀ signerName nsecRrset nsecRrsigRrset, validateNsecNoData ⟨signerName, dnskeyRrset, name,
        recordType, nsecRrset, nsecRrsigRrset, now⟩ = .ok .secure → zone.NoData name recordType) ↔
      (zone.Owner name → zone.IsDelegation name →
        recordType = .ds ∨ zone.Shows name recordType.code) ∧
      ∀ wildcard parent, zone.Owner wildcard → wildcard.IsWildcardOf parent →
        name.isStrictSubdomain parent → ¬zone.Shows wildcard recordType.code →
        ¬zone.Shows wildcard RecordType.cname.code → zone.NoData name recordType := by
  constructor
  · intro h
    have hlacks (hl : zone.LacksAt name recordType) : zone.NoData name recordType := by
      obtain ⟨nsecRrset, nsecRrsigRrset, hsecure⟩ := exists_secure_of_lacksAt hchain hsigned hl
      exact h _ _ _ hsecure
    refine ⟨fun howner hcut => ?_, fun wildcard parent howner hwild hbelow hshows hcname => ?_⟩
    · rw [or_iff_not_imp_right]
      intro hshows
      exact (hlacks ⟨name, howner, .inl rfl, hshows,
        not_shows_cname_of_isDelegation hcut⟩).notDelegated hcut
    · exact hlacks ⟨wildcard, howner, .inr ⟨parent, hwild, hbelow⟩, hshows, hcname⟩
  · rintro ⟨hown, hwildcards⟩ signerName nsecRrset nsecRrsigRrset hsecure
    obtain ⟨owner, howner, hexpands, hlacks, hcname⟩ := lacksAt_of_secure hchain hkeys hsecure
    rcases hexpands with rfl | ⟨parent, hwild, hbelow⟩
    · exact noData_of_owner howner hlacks hcname fun hcut =>
        (hown howner hcut).resolve_right hlacks
    · exact hwildcards owner parent howner hwild hbelow hlacks hcname

/-! ## Name errors -/

omit [DnssecCrypto] in
theorem nsecCoversName_eq_true {owner next name : DnsName} :
    nsecCoversName owner next name = true ↔
      name ≠ owner ∧ (owner < next ∧ owner < name ∧ name < next ∨
        next < owner ∧ (owner < name ∨ name < next) ∨ owner = next) := by
  rw [nsecCoversName]
  by_cases hname : name = owner
  · simp [hname]
  rw [if_neg hname]
  rcases hcmp : canonicalNameCmp owner next with _ | _ | _
  · have hlt : owner < next := hcmp
    simp [hname, hlt, hlt.not_gt, hlt.ne, lt_iff]
  · obtain rfl : owner = next := canonicalNameCmp_eq_eq.1 hcmp
    simp [hname]
  · have hgt : next < owner := canonicalNameCmp_eq_gt.1 hcmp
    simp [hname, hgt, hgt.not_gt, hgt.ne', lt_iff]

/-- Some NSEC record of the zone covers the name, under an owner it is written like. -/
def Covers (zone : SignedZone) (name : DnsName) : Prop :=
  ∃ entry ∈ zone.nsecs, ∃ owner, Expands owner entry.owner ∧
    nsecCoversName owner entry.next name

/-- The NSEC record of a wildcard shows another owner below the same parent: under that owner, it
    covers all names but one. -/
def ReplayAround (zone : SignedZone) (name : DnsName) : Prop :=
  ∃ entry ∈ zone.nsecs, ∃ parent, entry.owner.IsWildcardOf parent ∧
    entry.next.isStrictSubdomain parent ∧ name ≠ entry.next

theorem covers_of_secure {input : NsecNameRangeValidationInput}
    (hkeys : zone.HonestKeys input.dnskeyRrset) (h : validateNsecNameRange input = .ok .secure) :
    zone.Covers input.queryName := by
  obtain ⟨hsecure, hany⟩ := thenIfSecure_eq_secure.1 h
  obtain ⟨k, record, hk, htest, -⟩ := Except.anyM_eq_ok_true.1 (secureIfAny_eq_secure.1 hany)
  obtain ⟨hmem, hrecord⟩ := List.mem_filter.1 (List.mem_of_getElem? hk)
  obtain ⟨entry, hentry, howner, hread⟩ :=
    exists_entry hkeys hsecure hmem (of_decide_eq_true hrecord)
  rw [nsecRecordCovers, hread] at htest
  exact ⟨entry, hentry, record.name, howner, Except.ok.inj htest⟩

theorem exists_secure_of_covers (hchain : NsecChain zone) (hsigned : zone.SignedAt dnskeyRrset now)
    {name : DnsName} (h : zone.Covers name) :
    ∃ nsecRrset nsecRrsigRrset, nsecRrset ≠ [] ∧ validateNsecNameRange ⟨zone.apex, dnskeyRrset,
      name, nsecRrset, nsecRrsigRrset, now⟩ = .ok .secure := by
  obtain ⟨entry, hentry, owner, hexpands, hcovers⟩ := h
  obtain ⟨rrsigRecord, hsecure⟩ := exists_nsec_signature hchain hsigned hentry hexpands
  have hhas : entry.bitmap.Has RecordType.nsec.code :=
    (hchain.bitmap entry hentry _).2 (.inr (.inl rfl))
  have hread := NsecEntry.fromRecord_record owner (entry.bitmap.octets_ne_nil hhas)
  refine ⟨[entry.record owner], [rrsigRecord], List.cons_ne_nil _ _,
    thenIfSecure_eq_secure.2 ⟨hsecure, ?_⟩⟩
  rw [secureIfAny_eq_secure, Except.anyM_eq_ok_true]
  refine ⟨0, entry.record owner, ?_, ?_, by simp⟩
  · simp [NsecEntry.record]
  · rw [nsecRecordCovers, hread]
    exact congrArg Except.ok hcovers

omit [DnssecCrypto] in
/-- The last owner before a name. -/
theorem exists_owner_before {name : DnsName} (hbelow : name.isSubdomainOrEqual zone.apex)
    (hnot : ¬zone.Owner name) :
    ∃ owner, zone.Owner owner ∧ owner < name ∧
      ∀ other, zone.Owner other → other < name → other ≤ owner := by
  have hfinite : {owner | zone.Owner owner ∧ owner < name}.Finite := by
    refine Set.Finite.subset (List.finite_toSet (zone.rrsets.map ZoneRrset.name)) ?_
    rintro owner ⟨⟨⟨rrset, hrrset, rfl⟩, -⟩, -⟩
    exact List.mem_map_of_mem hrrset
  have hapex : zone.apex < name := by
    refine lt_of_le_of_ne (le_of_isSubdomainOrEqual hbelow) ?_
    rintro rfl
    exact hnot Zone.owner_apex
  obtain ⟨owner, ⟨howner, hlt⟩, hmax⟩ := Set.exists_max_image _ id hfinite
    ⟨zone.apex, Zone.owner_apex, hapex⟩
  exact ⟨owner, howner, hlt, fun other hother hlt => hmax other ⟨hother, hlt⟩⟩

omit [DnssecCrypto] in
/-- The record of the owner before a name covers it. -/
theorem covers_of_not_owner (hchain : NsecChain zone) {name : DnsName}
    (hbelow : name.isSubdomainOrEqual zone.apex) (hnot : ¬zone.Owner name) : zone.Covers name := by
  obtain ⟨owner, howner, hlt, hlast⟩ := exists_owner_before hbelow hnot
  obtain ⟨entry, hentry, rfl⟩ := hchain.complete owner howner
  refine ⟨entry, hentry, entry.owner, .inl rfl, nsecCoversName_eq_true.2 ⟨hlt.ne', ?_⟩⟩
  rcases hchain.next entry hentry with ⟨hnext, -⟩ | ⟨hnext, -⟩
  · refine .inl ⟨hnext, hlt, lt_of_not_ge fun hle => ?_⟩
    -- The next owner is not before the name, as it is behind the last one that is.
    have hne : entry.next ≠ name := by
      rintro rfl
      exact hnot (hchain.next_owner entry hentry)
    exact absurd (hlast entry.next (hchain.next_owner entry hentry) (lt_of_le_of_ne hle hne))
      (not_le.2 hnext)
  · rcases (le_of_isSubdomainOrEqual howner.below).lt_or_eq with hapex | hapex
    · exact .inr (.inl ⟨hnext ▸ hapex, .inl hlt⟩)
    · exact .inr (.inr (by rw [hnext, hapex]))

omit [DnssecCrypto] in
/-- A name is covered when it is not an owner, or around a wildcard. -/
theorem covers_iff (hchain : NsecChain zone) {name : DnsName}
    (hbelow : name.isSubdomainOrEqual zone.apex) :
    zone.Covers name ↔ ¬zone.Owner name ∨ zone.ReplayAround name := by
  have hapex := le_of_isSubdomainOrEqual hbelow
  constructor
  · rintro ⟨entry, hentry, owner, hexpands, hcovers⟩
    obtain ⟨hne, hcovers⟩ := nsecCoversName_eq_true.1 hcovers
    rcases hexpands with rfl | ⟨parent, hwild, howner⟩
    · -- The record under its own owner.
      refine .inl fun hname => ?_
      rcases hchain.next entry hentry with ⟨hlt, hgap⟩ | ⟨hnext, hlast⟩
      · rcases hcovers with ⟨-, hbetween⟩ | ⟨hgt, -⟩ | heq
        · exact hgap name hname hbetween
        · exact absurd hlt hgt.not_gt
        · exact absurd heq hlt.ne
      · have hle := hlast name hname
        rcases hcovers with ⟨-, hlt, -⟩ | ⟨-, hlt | hlt⟩ | heq
        · exact absurd hlt (not_lt.2 hle)
        · exact absurd hlt (not_lt.2 hle)
        · exact absurd hlt (not_lt.2 (hnext ▸ hapex))
        · exact hne (le_antisymm hle (heq.trans hnext ▸ hapex))
    · by_cases hnext : entry.next.isStrictSubdomain parent
      · -- The next owner is below the same parent.
        by_cases hname : name = entry.next
        · subst hname
          refine .inl ?_
          rcases hcovers with ⟨-, -, hlt⟩ | ⟨hgt, hlt | hlt⟩ | heq
          · exact absurd hlt (lt_irrefl _)
          · exact absurd hlt hgt.not_gt
          · exact absurd hlt (lt_irrefl _)
          · exact absurd heq.symm hne
        · exact .inr ⟨entry, hentry, parent, hwild, hnext, hname⟩
      · -- All names below the parent come before the next owner, unless it is the apex.
        have hle := hwild.le howner
        refine .inl fun hname => ?_
        rcases hchain.next entry hentry with ⟨hlt, hgap⟩ | ⟨hapex', hlast⟩
        · have hbefore : owner < entry.next := by
            refine lt_of_not_ge fun hge => hnext ?_
            exact isStrictSubdomain_of_between hwild.isStrictSubdomain howner hlt.le hge
          rcases hcovers with ⟨-, hlt', hbetween⟩ | ⟨hgt, -⟩ | heq
          · exact hgap name hname ⟨lt_of_le_of_lt hle hlt', hbetween⟩
          · exact absurd hbefore hgt.not_gt
          · exact absurd heq hbefore.ne
        · have hle' := hlast name hname
          have hapexle : entry.next ≤ owner := by
            rw [hapex']
            exact (le_of_isSubdomainOrEqual (hchain.owner entry hentry).below).trans hle
          rcases hcovers with ⟨hlt, -⟩ | ⟨-, hlt | hlt⟩ | heq
          · exact absurd hlt (not_lt.2 hapexle)
          · exact absurd (lt_of_le_of_lt hle hlt) (not_lt.2 hle')
          · exact absurd hlt (not_lt.2 (hapex' ▸ hapex))
          · refine hne (le_antisymm (hle'.trans hle) ?_)
            rw [heq, hapex']
            exact hapex
  · rintro (hnot | ⟨entry, hentry, parent, hwild, hnext, hne⟩)
    · exact covers_of_not_owner hchain hbelow hnot
    · refine ⟨entry, hentry, entry.next, .inr ⟨parent, hwild, hnext⟩, ?_⟩
      exact nsecCoversName_eq_true.2 ⟨hne, .inr (.inr rfl)⟩

omit [DnssecCrypto] in
theorem wildcardChild_eq_ok {encloser wildcard : DnsName} :
    wildcardChild encloser = .ok wildcard ↔ wildcard.IsWildcardOf encloser := by
  have htext : (if encloser.labels = [] then ['*'] else '*' :: '.' :: encloser.display) =
      join (DnsLabel.star :: encloser.labels) := by
    rw [display]
    cases encloser.labels with
    | nil => rfl
    | cons label labels => rw [join_cons_cons]; rfl
  rw [wildcardChild, Except.mapError_eq_ok, htext, fromAscii_join_cons, Except.ofOption_eq_ok,
    ofLabels_eq_some]
  rfl

theorem validateNsecNameError_eq_secure {input : NsecNameErrorValidationInput} :
    validateNsecNameError input = .ok .secure ↔
      input.queryName.isStrictSubdomain input.closestEncloser ∧
      (input.coveringNsecRrset ≠ [] ∧ input.wildcardNsecRrset ≠ []) ∧
      validateNsecNameRange ⟨input.signerName, input.dnskeyRrset, input.queryName,
        input.coveringNsecRrset, input.coveringNsecRrsigRrset, input.now⟩ = .ok .secure ∧
      ∃ wildcardName, wildcardName.IsWildcardOf input.closestEncloser ∧
        validateNsecNameRange ⟨input.signerName, input.dnskeyRrset, wildcardName,
          input.wildcardNsecRrset, input.wildcardNsecRrsigRrset, input.now⟩ = .ok .secure := by
  rw [validateNsecNameError]
  by_cases hbelow : input.queryName.isStrictSubdomain input.closestEncloser
  · by_cases hempty : input.coveringNsecRrset = [] ∨ input.wildcardNsecRrset = []
    · have hnot : ¬(input.coveringNsecRrset ≠ [] ∧ input.wildcardNsecRrset ≠ []) := by
        rwa [← not_or, not_not]
      simp [hbelow, hempty, hnot, pure, Except.pure]
    · have hne : input.coveringNsecRrset ≠ [] ∧ input.wildcardNsecRrset ≠ [] := not_or.1 hempty
      rw [if_neg (by simp [hbelow]), if_neg hempty, thenIfSecure_eq_secure, Except.bind_eq_ok]
      simp only [wildcardChild_eq_ok, thenIfSecure_eq_secure, hbelow, hne, pure, Except.pure,
        and_true, true_and, ne_eq, not_false_eq_true]
  · simp [hbelow, pure, Except.pure]

/-- The name is there though it has no record of its own, or a wildcard stands for it, or the record
    of a wildcard can be shown around it. -/
def Misleading (zone : SignedZone) (name : DnsName) : Prop :=
  ¬zone.Owner name ∧ zone.Exists name ∨ zone.Occluded name ∨
    (∃ wildcard, zone.SourceOfSynthesis name wildcard) ∨
    zone.Owner name ∧ zone.ReplayAround name

omit [DnssecCrypto] in
/-- A covered name that is not denied. -/
theorem misleading_iff (hchain : NsecChain zone) {name : DnsName}
    (hbelow : name.isSubdomainOrEqual zone.apex) :
    zone.Misleading name ↔ zone.Covers name ∧ ¬zone.NameError name := by
  rw [covers_iff hchain hbelow]
  constructor
  · rintro (⟨hnot, hexists⟩ | hoccluded | ⟨wildcard, hwild⟩ | ⟨howner, hreplay⟩)
    · exact ⟨.inl hnot, fun h => h.notExists hexists⟩
    · exact ⟨.inl fun howner => howner.2 hoccluded, fun h => h.notOccluded hoccluded⟩
    · exact ⟨.inl fun howner => hwild.1 howner.exists, fun h => h.noWildcard ⟨wildcard, hwild⟩⟩
    · exact ⟨.inr hreplay, fun h => h.notExists howner.exists⟩
  · rintro ⟨hcovers, hnot⟩
    by_contra hmis
    rw [Misleading, not_or, not_or, not_or] at hmis
    obtain ⟨hent, hoccluded, hwild, hreplay⟩ := hmis
    refine hnot ⟨fun hexists => ?_, hoccluded, hwild⟩
    by_cases howner : zone.Owner name
    · exact hreplay ⟨howner, hcovers.resolve_left fun h => h howner⟩
    · exact hent ⟨howner, hexists⟩

/-- Name errors are to be trusted just for names that do not mislead, and for those all of whose
    possible enclosers have a wildcard that cannot be covered. -/
theorem nameError_of_validateNsecNameError_iff (hchain : NsecChain zone)
    (hkeys : zone.HonestKeys dnskeyRrset) (hsigned : zone.SignedAt dnskeyRrset now)
    {name : DnsName} (hbelow : name.isSubdomainOrEqual zone.apex) :
    (∀ signerName encloser candidates coveringRrset coveringRrsigRrset wildcardRrset
        wildcardRrsigRrset, closestEncloserCandidates name zone.apex = .ok candidates →
      encloser ∈ candidates → validateNsecNameError ⟨signerName, dnskeyRrset, name, encloser,
        coveringRrset, coveringRrsigRrset, wildcardRrset, wildcardRrsigRrset, now⟩ = .ok .secure →
      zone.NameError name) ↔
      ¬(zone.Misleading name ∧ ∃ encloser wildcard, name.isStrictSubdomain encloser ∧
        encloser.isSubdomainOrEqual zone.apex ∧ wildcard.IsWildcardOf encloser ∧
        (¬zone.Owner wildcard ∨ zone.ReplayAround wildcard)) := by
  have hwildcard {encloser wildcard : DnsName} (habove : encloser.isSubdomainOrEqual zone.apex)
      (hwild : wildcard.IsWildcardOf encloser) : wildcard.isSubdomainOrEqual zone.apex := by
    rw [isSubdomainOrEqual_iff] at habove ⊢
    exact habove.trans (isStrictSubdomain_iff.1 hwild.isStrictSubdomain).1
  rw [misleading_iff hchain hbelow]
  constructor
  · rintro h ⟨⟨hcovers, hnot⟩, encloser, wildcard, hstrict, habove, hwild, hdeniable⟩
    obtain ⟨candidates, hcandidates, hmem⟩ :=
      mem_closestEncloserCandidates.2 ⟨hstrict, habove⟩
    obtain ⟨coveringRrset, coveringRrsigRrset, hne, hsecure⟩ :=
      exists_secure_of_covers hchain hsigned hcovers
    obtain ⟨wildcardRrset, wildcardRrsigRrset, hne', hsecure'⟩ :=
      exists_secure_of_covers hchain hsigned
        ((covers_iff hchain (hwildcard habove hwild)).2 hdeniable)
    exact hnot (h zone.apex encloser candidates coveringRrset coveringRrsigRrset wildcardRrset
      wildcardRrsigRrset hcandidates hmem (validateNsecNameError_eq_secure.2
        ⟨hstrict, ⟨hne, hne'⟩, hsecure, wildcard, hwild, hsecure'⟩))
  · intro h signerName encloser candidates coveringRrset coveringRrsigRrset wildcardRrset
      wildcardRrsigRrset hcandidates hmem hsecure
    obtain ⟨hstrict, habove⟩ := mem_closestEncloserCandidates.1 ⟨candidates, hcandidates, hmem⟩
    obtain ⟨-, -, hrange, wildcard, hwild, hrange'⟩ := validateNsecNameError_eq_secure.1 hsecure
    by_contra hnot
    exact h ⟨⟨covers_of_secure hkeys hrange, hnot⟩, encloser, wildcard, hstrict, habove, hwild,
      (covers_iff hchain (hwildcard habove hwild)).1 (covers_of_secure hkeys hrange')⟩

end

end SignedZone

/-! ## A zone with a wildcard -/

namespace NsecSample

def z : DnsLabel := .letter 25

def d : DnsLabel := ⟨[0x64], by decide, by decide, by decide, by decide⟩

def www : DnsLabel := ⟨[0x77, 0x77, 0x77], by decide, by decide, by decide, by decide⟩

def apex : DnsName := ⟨[z], by decide⟩

def wildcard : DnsName := ⟨[DnsLabel.star, z], by decide⟩

/-- A delegation. -/
def child : DnsName := ⟨[d, z], by decide⟩

def site : DnsName := ⟨[www, z], by decide⟩

def publicKey : List UInt8 :=
  Octet.toBE 32 0x8a88e3dd7409f195fd52db2d3cba5d72ca6709bf1d94121bf3748801b40f6f5c

def soa : ZoneRrset := ⟨apex, 6, [wire apex.labels ++ wire apex.labels ++
  [0, 0, 0, 1, 0, 0, 14, 16, 0, 0, 14, 16, 0, 0, 14, 16, 0, 0, 14, 16]]⟩

def ns : ZoneRrset := ⟨apex, 2, [wire site.labels]⟩

def dnskey : ZoneRrset := ⟨apex, 48, [[1, 1, 3, 15] ++ publicKey]⟩

def wildcardA : ZoneRrset := ⟨wildcard, 1, [[192, 0, 2, 1]]⟩

def childNs : ZoneRrset := ⟨child, 2, [wire child.labels]⟩

def siteA : ZoneRrset := ⟨site, 1, [[192, 0, 2, 2]]⟩

def siteAaaa : ZoneRrset :=
  ⟨site, 28, [[0x20, 0x01, 0x0d, 0xb8, 0, 0, 0, 0, 0, 0, 0, 0, 0, 0, 0, 2]]⟩

/-- A bitmap of the first window. -/
def low (bits : List UInt8) (h : 0 < bits.length ∧ bits.length ≤ 32) : TypeBitMap :=
  ⟨[(0, bits)], by simpa using h, by simp⟩

def nsecApex : NsecEntry := ⟨apex, wildcard, low [0x22, 0, 0, 0, 0, 3, 0x80] (by decide)⟩

def nsecWildcard : NsecEntry := ⟨wildcard, child, low [0x40, 0, 0, 0, 0, 3] (by decide)⟩

def nsecChild : NsecEntry := ⟨child, site, low [0x20, 0, 0, 0, 0, 3] (by decide)⟩

def nsecSite : NsecEntry := ⟨site, apex, low [0x40, 0, 0, 8, 0, 3] (by decide)⟩

def zone : SignedZone where
  apex := apex
  rrsets := [soa, ns, dnskey, wildcardA, childNs, siteA, siteAaaa]
  below := by decide
  types := by decide
  soa := by decide
  cname := by decide
  nsecs := [nsecApex, nsecWildcard, nsecChild, nsecSite]
  nsec3s := []

def table : SignatureTable where
  apex := apex
  publicKey := publicKey
  signatures := [
    (soa, Octet.toBE 32 0xa5712e37f67ddaec29363c51cf76ac7afa7d848ba175af5b4e14d6f4b69352c4 ++
      Octet.toBE 32 0x7bc030f4a1660dde28bc3b902adce99287f8034aa11c9386f96a27177bbf9508),
    (ns, Octet.toBE 32 0xc53ca1063aa7b5fc8530cac1d9d10373b75f7514766d49c28b60526cb1a10969 ++
      Octet.toBE 32 0xb54fa6c2aa1a8d0303f7ee6d684016b906e7d4b9a26abb41c536a2513106d207),
    (dnskey, Octet.toBE 32 0x9a39cd7be90c02faec39e4d65084c610aa9c5b6245d95e48460cb52b3d58bd9e ++
      Octet.toBE 32 0xadd3ce991d64904b3089b09768ae8249d0d138d2330c3e610caca9bce88bcb06),
    (wildcardA, Octet.toBE 32 0x879067110d92cc4d4787fe09979e334fb8b787e5153f46abb92def6e46056a58 ++
      Octet.toBE 32 0x1aa8b0e12311e56933a8072b7bbf48f94862d42f8713876127d23f7987d02a0f),
    (siteA, Octet.toBE 32 0x5a8b699cfda4d5a9be21dcfda9bbff07d06c3eb3390b75c0ac9deaaf20263439 ++
      Octet.toBE 32 0x960ee856b3c953d3d8a8e2f73435d4e446f512ce87fa1dc132a0323747728309),
    (siteAaaa, Octet.toBE 32 0xc437a58e735cde160fcd5836da8250e3db7606b308aabe3a0e9822ed7aead504 ++
      Octet.toBE 32 0xe14fda363ff518a7c688be29c1d9cf81e6729a3996da18281b6871470f370106),
    (nsecApex.rrset,
      Octet.toBE 32 0xebc5fa824627a5a1e1b15c2c7433d8f48b081f556dc7366e0987744b20635c5e ++
      Octet.toBE 32 0xdc9d7afe8da7addc3f71781cd1f03365ee02ec9142efa02f4328ac170453150b),
    (nsecWildcard.rrset,
      Octet.toBE 32 0xadef4bf99e2ae0efc67f3ac7fb4a54a2c9a730c26846b14a36d82908903f7699 ++
      Octet.toBE 32 0xd955fdf734ad702c534777b57efd90634994b9a347bb87abbea5a85d65025603),
    (nsecChild.rrset,
      Octet.toBE 32 0x534b977c5c3b1a5c40dd445c11f921f60bd5c00995db06a5c1846682a050b1a1 ++
      Octet.toBE 32 0x2d3128a6ceab9946fd55c90b2dae5b5d08e22b74e60f72e124f96f6516f6440c),
    (nsecSite.rrset,
      Octet.toBE 32 0x763ecd7caa7e6aa8e232346a164010b8e1d115f84ca803de718c3aa871693e9b ++
      Octet.toBE 32 0xcabdaf7efb91c32226e901d6b3eb35d83dc0653b44f5063e3b8f7c11f22d430a)]

scoped instance : DnssecCrypto := table.crypto fun _ => .zero

def dnskeyRrset : List ResourceRecord := [table.dnskeyRecord]

theorem fits : table.Fits zone dnskeyRrset where
  apex := rfl
  publicKey := by decide
  dnskeys := by decide
  published := by decide
  complete := by decide
  length_le := by decide
  labels := by decide
  parse := by decide

theorem honestKeys : zone.HonestKeys dnskeyRrset := fits.honestKeys

theorem signedAt : zone.SignedAt dnskeyRrset 1500 := fits.signedAt (by decide) (by decide)

theorem nsecChain : NsecChain zone := by
  apply NsecChain.of_forall <;> decide

/-- What the zone has at the site and at the delegation, which the wildcard stands before. -/
theorem owners :
    (zone.Owner site ∧ ¬zone.Shows site RecordType.https.code ∧
        ¬zone.Shows site RecordType.cname.code ∧ ¬zone.IsDelegation site) ∧
      (zone.Exists site ∧ zone.Holds site .aaaa) ∧
      zone.Owner child ∧ ∀ entry ∈ zone.nsecs, entry.owner.labels.head? = some DnsLabel.star →
        entry.next = child := by
  decide

/-- The record of the wildcard is taken as one of the site, and as one of the delegation. -/
theorem replayed :
    (site.isSubdomainOrEqual zone.apex ∧ child.isSubdomainOrEqual zone.apex) ∧
      validateNsecNoData ⟨apex, dnskeyRrset, site, .aaaa, [nsecWildcard.record site],
        [table.rrsigRecord nsecWildcard.rrset site], 1500⟩ = .ok .secure ∧
      closestEncloserCandidates site zone.apex = .ok [apex] ∧
      validateNsecNameError ⟨apex, dnskeyRrset, site, apex, [nsecWildcard.record child],
        [table.rrsigRecord nsecWildcard.rrset child], [nsecWildcard.record child],
        [table.rrsigRecord nsecWildcard.rrset child], 1500⟩ = .ok .secure := by
  decide

/-- No wildcard hides what the site has: an empty answer for its HTTPS records is to be trusted. -/
theorem noData_site_https :
    (NsecChain zone ∧ zone.HonestKeys dnskeyRrset ∧ zone.SignedAt dnskeyRrset 1500) ∧
      ∀ signerName nsecRrset nsecRrsigRrset, validateNsecNoData ⟨signerName, dnskeyRrset, site,
        .https, nsecRrset, nsecRrsigRrset, 1500⟩ = .ok .secure → zone.NoData site .https := by
  obtain ⟨⟨howner, hlacks, hcname, hcut⟩, -⟩ := owners
  refine ⟨⟨nsecChain, honestKeys, signedAt⟩, (SignedZone.noData_of_validateNsecNoData_iff nsecChain
    honestKeys signedAt site .https).2 ⟨fun _ h => absurd h hcut, ?_⟩⟩
  intro _ _ _ _ _ _ _
  exact SignedZone.noData_of_owner howner hlacks hcname fun h => absurd h hcut

/-- The record of the wildcard, shown as that of the site, hides its AAAA record. -/
theorem exists_secure_not_noData :
    NsecChain zone ∧ zone.HonestKeys dnskeyRrset ∧
      validateNsecNoData ⟨apex, dnskeyRrset, site, .aaaa, [nsecWildcard.record site],
        [table.rrsigRecord nsecWildcard.rrset site], 1500⟩ = .ok .secure ∧
      zone.Holds site .aaaa ∧ ¬zone.NoData site .aaaa := by
  obtain ⟨-, ⟨-, hholds⟩, -⟩ := owners
  exact ⟨nsecChain, honestKeys, replayed.2.1, hholds, fun h => h.noData hholds⟩

/-- The record of the wildcard shows the delegation, and so it cannot be shown around it. -/
theorem nameError_child :
    (NsecChain zone ∧ zone.HonestKeys dnskeyRrset ∧ zone.SignedAt dnskeyRrset 1500) ∧
      ∀ signerName encloser candidates coveringRrset coveringRrsigRrset wildcardRrset
        wildcardRrsigRrset, closestEncloserCandidates child zone.apex = .ok candidates →
      encloser ∈ candidates → validateNsecNameError ⟨signerName, dnskeyRrset, child, encloser,
        coveringRrset, coveringRrsigRrset, wildcardRrset, wildcardRrsigRrset, 1500⟩ =
          .ok .secure →
      zone.NameError child := by
  obtain ⟨-, -, howner, honly⟩ := owners
  refine ⟨⟨nsecChain, honestKeys, signedAt⟩, (SignedZone.nameError_of_validateNsecNameError_iff
    nsecChain honestKeys signedAt replayed.1.2).2 ?_⟩
  rintro ⟨⟨hnot, -⟩ | hoccluded | ⟨_, hnot, -⟩ | ⟨-, entry, hentry, parent, hwild, -, hne⟩, -⟩
  · exact hnot howner
  · exact howner.2 hoccluded
  · exact hnot howner.exists
  · have hlabels : entry.owner.labels = DnsLabel.star :: parent.labels := hwild
    exact hne (honly entry hentry (by rw [hlabels]; rfl)).symm

/-- The record of the wildcard, shown as that of the delegation, covers the site. -/
theorem exists_secure_not_nameError :
    NsecChain zone ∧ zone.HonestKeys dnskeyRrset ∧ site.isSubdomainOrEqual zone.apex ∧
      closestEncloserCandidates site zone.apex = .ok [apex] ∧
      validateNsecNameError ⟨apex, dnskeyRrset, site, apex, [nsecWildcard.record child],
        [table.rrsigRecord nsecWildcard.rrset child], [nsecWildcard.record child],
        [table.rrsigRecord nsecWildcard.rrset child], 1500⟩ = .ok .secure ∧
      zone.Exists site ∧ ¬zone.NameError site := by
  obtain ⟨-, ⟨hexists, -⟩, -⟩ := owners
  obtain ⟨⟨hbelow, -⟩, -, hcandidates, hsecure⟩ := replayed
  exact ⟨nsecChain, honestKeys, hbelow, hcandidates, hsecure, hexists,
    fun h => h.notExists hexists⟩

end NsecSample

end Hns
