import Hns.Dnssec.Raw

/-!
# What a conforming signer signs

The data of records as the rules of signing have them (`RawData`): the names in
NS, CNAME, SOA and SRV data are signed in lower case, and those in the data of
newer types, which are the next name of an NSEC record and the target of a SVCB
or HTTPS record, as they are written (`RawData.canonical`). A signer sorts these
data and signs their message (`conformingText`).

The validator signs every name in lower case (`RawData.lowered`). So its data are
those of the rules just when the names of the newer types are written in lower
case (`signedData_eq_lowered`).
-/

namespace Hns

/-! ## Data -/

/-- Data of records, with the names in them as they are written. -/
inductive RawData
  | plain (rdata : List UInt8)
  | single (name : RawName)
  | soa (mname rname : RawName) (timers : List UInt8)
  | srv (fixed : List UInt8) (target : RawName)
  | nsec (nextDomainName : RawName) (typeBitMaps : List UInt8)
  | svcb (svcPriority : List UInt8) (targetName : RawName) (params : List UInt8)

namespace RawData

/-- The data without compression. -/
def wire : RawData → List UInt8
  | plain rdata => rdata
  | single name => name.wire
  | soa mname rname timers => mname.wire ++ (rname.wire ++ timers)
  | srv fixed target => fixed ++ target.wire
  | nsec nextDomainName typeBitMaps => nextDomainName.wire ++ typeBitMaps
  | svcb svcPriority targetName params => svcPriority ++ (targetName.wire ++ params)

/-- The names in the data. -/
def names : RawData → List RawName
  | plain _ => []
  | single name => [name]
  | soa mname rname _ => [mname, rname]
  | srv _ target => [target]
  | nsec nextDomainName _ => [nextDomainName]
  | svcb _ targetName _ => [targetName]

/-- The canonical form of RFC 4034, with the corrections of RFC 6840 and the rule of RFC 3597 for
    newer types. -/
def canonical : RawData → RawData
  | plain rdata => plain rdata
  | single name => single name.lower
  | soa mname rname timers => soa mname.lower rname.lower timers
  | srv fixed target => srv fixed target.lower
  | nsec nextDomainName typeBitMaps => nsec nextDomainName typeBitMaps
  | svcb svcPriority targetName params => svcb svcPriority targetName params

/-- Every name in lower case. -/
def lowered : RawData → RawData
  | plain rdata => plain rdata
  | single name => single name.lower
  | soa mname rname timers => soa mname.lower rname.lower timers
  | srv fixed target => srv fixed target.lower
  | nsec nextDomainName typeBitMaps => nsec nextDomainName.lower typeBitMaps
  | svcb svcPriority targetName params => svcb svcPriority targetName.lower params

/-- The names that are to keep their case. -/
def newNames : RawData → List RawName
  | nsec nextDomainName _ => [nextDomainName]
  | svcb _ targetName _ => [targetName]
  | _ => []

/-- The data are well-formed ones of the type. -/
def Fits : RecordType → RawData → Prop
  | .ns, single _ | .cname, single _ => True
  | .soa, soa _ _ timers => timers.length = 20
  | .srv, srv fixed _ => fixed.length = 6
  | .nsec, nsec _ typeBitMaps =>
    typeBitMaps ≠ [] ∧ validateNsecTypeBitMaps typeBitMaps = .ok ()
  | .nsec3, plain rdata => ∃ nsec3, Nsec3Record.parseRdata rdata = .ok nsec3
  | .svcb, svcb svcPriority _ params | .https, svcb svcPriority _ params =>
    svcPriority.length = 2 ∧ ∃ parsed, parseSvcParams (params.length + 1) params none = .ok parsed
  | .a, plain _ | .aaaa, plain _ | .ds, plain _ | .dnskey, plain _ | .tlsa, plain _
  | .txt, plain _ | .unknown _, plain _ => True
  | _, _ => False

/-- The names that are to keep their case are in lower case as they are written. -/
theorem lowered_eq_canonical_iff {data : RawData} :
    data.lowered = data.canonical ↔ ∀ name ∈ data.newNames, name.lower = name := by
  cases data <;> simp [lowered, canonical, newNames]

@[simp] theorem length_wire_lowered (data : RawData) :
    data.lowered.wire.length = data.wire.length := by
  cases data <;> simp [lowered, wire]

@[simp] theorem length_wire_canonical (data : RawData) :
    data.canonical.wire.length = data.wire.length := by
  cases data <;> simp [canonical, wire]

/-- Data in canonical form that are others in lower case are in lower case themselves. -/
theorem lowered_eq_canonical_of_wire_eq {recordType : RecordType} {data data' : RawData}
    (hfits : data.Fits recordType) (hfits' : data'.Fits recordType)
    (h : data.canonical.wire = data'.lowered.wire) : data.lowered = data.canonical := by
  rw [lowered_eq_canonical_iff]
  have hlower {a b : RawName} (h : a = b.lower) : a.lower = a := by rw [h, RawName.lower_lower]
  cases data with
  | nsec next typeBitMaps =>
    cases data' with
    | nsec next' typeBitMaps' =>
      obtain ⟨hname, -⟩ := RawName.selfDelimiting_wire h
      simpa [newNames] using hlower hname
    | _ =>
      cases recordType with
      | nsec => cases hfits'
      | _ => cases hfits
  | svcb svcPriority targetName params =>
    cases data' with
    | svcb svcPriority' targetName' params' =>
      have hlength : svcPriority.length = svcPriority'.length := by
        cases recordType with
        | svcb | https => exact hfits.1.trans hfits'.1.symm
        | _ => cases hfits
      obtain ⟨-, h⟩ := Octet.append_inj_of_length hlength h
      obtain ⟨hname, -⟩ := RawName.selfDelimiting_wire h
      simpa [newNames] using hlower hname
    | _ =>
      cases recordType with
      | svcb | https => cases hfits'
      | _ => cases hfits
  | _ => simp [newNames]

end RawData

/-! ## The canonical form of the validator -/

/-- Parameters that are read are written as they were. -/
theorem flatMap_of_parseSvcParams {fuel : ℕ} {data : List UInt8} {previousKey : Option UInt16}
    {params : List SvcParam} (h : parseSvcParams fuel data previousKey = .ok params) :
    (params.flatMap fun param =>
      param.key.toBE ++ (UInt16.ofNat param.value.length).toBE ++ param.value) = data := by
  induction fuel generalizing data previousKey params with
  | zero => cases h
  | succ fuel ih =>
    match data, h with
    | [], h =>
      cases h
      rfl
    | [_], h => cases h
    | [_, _], h => cases h
    | [_, _, _], h => cases h
    | k₁ :: k₂ :: l₁ :: l₂ :: rest, h =>
      rw [parseSvcParams] at h
      obtain ⟨-, h⟩ := Except.throw_unless.1 h
      obtain ⟨hfits, h⟩ := Except.throw_unless.1 h
      obtain ⟨-, -, h⟩ := Except.bind_eq_ok.1 h
      obtain ⟨params, hparams, h⟩ := Except.bind_eq_ok.1 h
      cases h
      have hlength : (rest.take (Octet.be16 l₁ l₂).toNat).length = (Octet.be16 l₁ l₂).toNat := by
        rw [List.length_take, min_eq_left (not_lt.1 hfits)]
      rw [List.flatMap_cons, ih hparams, hlength, UInt16.ofNat_toNat, Octet.toBE_be16,
        Octet.toBE_be16, List.append_assoc, List.take_append_drop]
      rfl

section

variable {record : ResourceRecord}

theorem canonicalSingleNameRdata_of_wire {name : RawName} (hallowed : name.Allowed)
    (hrdata : record.rdata = name.wire) :
    canonicalSingleNameRdata record = .ok name.lower.wire := by
  obtain ⟨read, hread, hwire⟩ := RawName.exists_reads hallowed
  have hdrop : record.rdata.drop 0 = name.wire ++ [] := by rw [hrdata, List.append_nil]; rfl
  have hparse := DnsName.parseWire_iff.2 (hread.shortAt hdrop)
  rw [canonicalSingleNameRdata, hparse]
  refine Except.bind_eq_ok.2 ⟨_, rfl, Except.throw_unless.2 ⟨?_, ?_⟩⟩
  · rw [hrdata, Nat.zero_add]
    exact not_not.2 rfl
  · rw [encodeCanonicalName, DnsName.encodeWire_eq_ok, ← hwire]
    rfl

theorem canonicalSoaRdata_of_wire {mname rname : RawName} {timers : List UInt8}
    (hmname : mname.Allowed) (hrname : rname.Allowed) (htimers : timers.length = 20)
    (hrdata : record.rdata = mname.wire ++ (rname.wire ++ timers)) :
    canonicalSoaRdata record = .ok (mname.lower.wire ++ (rname.lower.wire ++ timers)) := by
  obtain ⟨readMname, hreadMname, hwireMname⟩ := RawName.exists_reads hmname
  obtain ⟨readRname, hreadRname, hwireRname⟩ := RawName.exists_reads hrname
  have hparseMname := DnsName.parseWire_iff.2 (@RawName.Reads.shortAt _ _ hreadMname
    record.rdata 0 _ hrdata)
  have hdrop : record.rdata.drop (0 + mname.wire.length) = rname.wire ++ timers := by
    rw [hrdata, Nat.zero_add, List.drop_left]
  have hparseRname := DnsName.parseWire_iff.2 (hreadRname.shortAt hdrop)
  have hlength : record.rdata.length = 0 + mname.wire.length + rname.wire.length + 20 := by
    rw [hrdata, List.length_append, List.length_append, htimers]
    omega
  have htail : record.rdata.drop (0 + mname.wire.length + rname.wire.length) = timers := by
    rw [← List.drop_drop, hdrop, List.drop_left]
  rw [canonicalSoaRdata, hparseMname]
  refine Except.bind_eq_ok.2 ⟨_, rfl, ?_⟩
  dsimp only
  rw [hparseRname]
  refine Except.bind_eq_ok.2 ⟨_, rfl, ?_⟩
  refine Except.throw_unless.2 ⟨not_lt.2 hlength.ge, Except.throw_unless.2 ⟨?_, ?_⟩⟩
  · exact not_not.2 hlength.symm
  · simp only [encodeCanonicalName, DnsName.encodeWire_eq_ok]
    rw [htail, List.take_of_length_le htimers.le, ← hwireMname, ← hwireRname, ← List.append_assoc]
    rfl

theorem canonicalSrvRdata_of_wire {fixed : List UInt8} {target : RawName}
    (hallowed : target.Allowed) (hfixed : fixed.length = 6)
    (hrdata : record.rdata = fixed ++ target.wire) :
    canonicalSrvRdata record = .ok (fixed ++ target.lower.wire) := by
  obtain ⟨read, hread, hwire⟩ := RawName.exists_reads hallowed
  have hdrop : record.rdata.drop 6 = target.wire ++ [] := by
    rw [hrdata, ← hfixed, List.drop_left, List.append_nil]
  have hparse := DnsName.parseWire_iff.2 (hread.shortAt hdrop)
  have hlength : record.rdata.length = 6 + target.wire.length := by
    rw [hrdata, List.length_append, hfixed]
  rw [canonicalSrvRdata]
  refine Except.throw_unless.2 ⟨by omega, ?_⟩
  rw [hparse]
  refine Except.bind_eq_ok.2 ⟨_, rfl, Except.throw_unless.2 ⟨not_not.2 hlength.symm, ?_⟩⟩
  rw [encodeCanonicalName, DnsName.encodeWire_eq_ok, hwire, hrdata, ← hfixed, List.take_left]
  rfl

theorem canonicalNsecRdata_of_wire {next : RawName} {typeBitMaps : List UInt8}
    (htype : record.recordType = .nsec) (hallowed : next.Allowed) (hne : typeBitMaps ≠ [])
    (hvalid : validateNsecTypeBitMaps typeBitMaps = .ok ())
    (hrdata : record.rdata = next.wire ++ typeBitMaps) :
    canonicalNsecRdata record = .ok (next.lower.wire ++ typeBitMaps) := by
  obtain ⟨read, hread, hwire⟩ := RawName.exists_reads hallowed
  have hparse := DnsName.parseWire_iff.2 (@RawName.Reads.shortAt _ _ hread record.rdata 0 _ hrdata)
  have hdrop : record.rdata.drop (0 + next.wire.length) = typeBitMaps := by
    rw [hrdata, Nat.zero_add, List.drop_left]
  have hlength : ¬record.rdata.length ≤ 0 + next.wire.length := by
    rw [hrdata, List.length_append]
    have := List.length_pos_iff.2 hne
    omega
  have hfrom : NsecRecord.fromRecord record = .ok ⟨read, typeBitMaps⟩ := by
    rw [NsecRecord.fromRecord, if_neg (not_not.2 htype), NsecRecord.parseRdata, hparse]
    refine Except.bind_eq_ok.2 ⟨_, rfl, Except.throw_unless.2 ⟨hlength, ?_⟩⟩
    rw [hdrop, hvalid]
    rfl
  rw [canonicalNsecRdata, hfrom, ← hwire]
  simp only [Except.ok_bind, encodeCanonicalName, DnsName.encodeWire_eq_ok]
  rfl

theorem canonicalSvcbRdata_of_wire {svcPriority : List UInt8} {target : RawName}
    {params : List UInt8} {parsed : List SvcParam}
    (htype : record.recordType = .svcb ∨ record.recordType = .https) (hallowed : target.Allowed)
    (hpriority : svcPriority.length = 2)
    (hparams : parseSvcParams (params.length + 1) params none = .ok parsed)
    (hrdata : record.rdata = svcPriority ++ (target.wire ++ params)) :
    canonicalSvcbRdata record = .ok (svcPriority ++ (target.lower.wire ++ params)) := by
  obtain ⟨read, hread, hwire⟩ := RawName.exists_reads hallowed
  obtain ⟨p₁, p₂, rfl⟩ := List.length_eq_two.1 hpriority
  have hne : target.wire ++ params ≠ [] := by simp [RawName.wire]
  have hfrom : SvcbRecord.fromRecord record = .ok ⟨Octet.be16 p₁ p₂, read, parsed⟩ := by
    rw [SvcbRecord.fromRecord, if_pos htype, hrdata, List.cons_append, List.cons_append,
      List.nil_append, SvcbRecord.parseRdata]
    refine Except.throw_unless.2 ⟨hne, ?_⟩
    rw [hread.parseUncompressed, Except.ok_bind]
    dsimp only
    rw [hparams]
    rfl
  rw [canonicalSvcbRdata, hfrom]
  refine Except.bind_eq_ok.2 ⟨_, rfl, ?_⟩
  simp only [encodeCanonicalName, DnsName.encodeWire_eq_ok]
  refine congrArg Except.ok ?_
  rw [flatMap_of_parseSvcParams hparams, Octet.toBE_be16, hwire, List.append_assoc]

/-- The validator has the names in the data in lower case, all of them. -/
theorem canonicalRdata_of_wire {data : RawData} (hfits : data.Fits record.recordType)
    (hallowed : ∀ name ∈ data.names, name.Allowed) (hrdata : record.rdata = data.wire) :
    canonicalRdata record = .ok data.lowered.wire := by
  rw [canonicalRdata]
  generalize htype : record.recordType = recordType at hfits
  cases data with
  | plain rdata =>
    cases recordType with
    | a | aaaa | ds | dnskey | tlsa | txt | unknown => exact congrArg Except.ok hrdata
    | nsec3 =>
      obtain ⟨nsec3, hparse⟩ := hfits
      refine Except.bind_eq_ok.2 ⟨nsec3, ?_, congrArg Except.ok hrdata⟩
      rw [Nsec3Record.fromRecord, if_neg (not_not.2 htype), hrdata]
      exact hparse
    | _ => cases hfits
  | single name =>
    have hname := hallowed name List.mem_cons_self
    cases recordType with
    | ns | cname => exact canonicalSingleNameRdata_of_wire hname hrdata
    | _ => cases hfits
  | soa mname rname timers =>
    have hmname := hallowed mname List.mem_cons_self
    have hrname := hallowed rname (List.mem_cons_of_mem _ List.mem_cons_self)
    cases recordType with
    | soa => exact canonicalSoaRdata_of_wire hmname hrname hfits hrdata
    | _ => cases hfits
  | srv fixed target =>
    have htarget := hallowed target List.mem_cons_self
    cases recordType with
    | srv => exact canonicalSrvRdata_of_wire htarget hfits hrdata
    | _ => cases hfits
  | nsec next typeBitMaps =>
    have hnext := hallowed next List.mem_cons_self
    cases recordType with
    | nsec => exact canonicalNsecRdata_of_wire htype hnext hfits.1 hfits.2 hrdata
    | _ => cases hfits
  | svcb svcPriority target params =>
    have htarget := hallowed target List.mem_cons_self
    cases recordType with
    | svcb =>
      obtain ⟨hpriority, parsed, hparams⟩ := hfits
      exact canonicalSvcbRdata_of_wire (.inl htype) htarget hpriority hparams hrdata
    | https =>
      obtain ⟨hpriority, parsed, hparams⟩ := hfits
      exact canonicalSvcbRdata_of_wire (.inr htype) htarget hpriority hparams hrdata
    | _ => cases hfits

end

/-! ## Signed data -/

/-- The records of an RRset, with their data as they are written. -/
structure WrittenAs (owner : DnsName) (type : RecordType) (class_ : UInt16)
    (record : ResourceRecord) (data : RawData) : Prop where
  name : record.name = owner
  recordType : record.recordType = type
  class_ : record.class_ = class_
  rdata : record.rdata = data.wire
  length_le : record.rdata.length ≤ 65535
  fits : data.Fits type

/-- What is signed of an RRset: the fields of the RRSIG record and its signer, and the data in
    order, each under the owner that the count of labels leaves. -/
def textOf (rrsig : RrsigRecord) (owner : DnsName) (class_ : UInt16) (datas : List RawData) :
    List UInt8 :=
  message rrsig.fields rrsig.signerName (signedLabels owner rrsig.labels.toNat) class_
    (sortedRdatas (datas.map RawData.wire))

/-- What a conforming signer signs. -/
def conformingText (rrsig : RrsigRecord) (owner : DnsName) (class_ : UInt16)
    (datas : List RawData) : List UInt8 :=
  textOf rrsig owner class_ (datas.map RawData.canonical)

section

variable {rrsig : RrsigRecord} {owner : DnsName} {class_ : UInt16} {rrset : List ResourceRecord}
  {datas : List RawData} {now : DnssecTime}

theorem forall₂_canonicalAs {first : ResourceRecord}
    (hfirst : first.name = owner ∧ first.recordType = rrsig.typeCovered ∧ first.class_ = class_)
    (hlabels : rrsig.labels.toNat ≤ owner.labels.length)
    (hallowed : ∀ data ∈ datas, ∀ name ∈ data.names, name.Allowed)
    (hrrset : List.Forall₂ (WrittenAs owner rrsig.typeCovered class_) rrset datas) :
    List.Forall₂ (CanonicalAs first rrsig.labels.toNat) rrset
      ((datas.map RawData.lowered).map RawData.wire) := by
  induction hrrset with
  | nil => exact .nil
  | cons hrecord _ ih =>
    rw [List.forall_mem_cons] at hallowed
    refine .cons ⟨?_, ?_, ?_, ?_, ?_, ?_⟩ (ih hallowed.2)
    · rw [hrecord.recordType, hfirst.2.1]
    · rw [hrecord.class_, hfirst.2.2]
    · rw [hrecord.name]
      exact hlabels
    · rw [hrecord.name, hfirst.1]
    · refine canonicalRdata_of_wire ?_ hallowed.1 hrecord.rdata
      rw [hrecord.recordType]
      exact hrecord.fits
    · rw [RawData.length_wire_lowered, ← hrecord.rdata]
      exact hrecord.length_le

/-- Sorted data that are all different have no two alike next to each other. -/
theorem isChain_sortedRdatas {rdatas : List (List UInt8)} (h : rdatas.Nodup) :
    (sortedRdatas rdatas).IsChain (· ≠ ·) :=
  ((List.perm_insertionSort _ rdatas).nodup_iff.2 h).isChain

/-- The data of the validator are the text in lower case. -/
theorem signedData_eq_textOf (hread : rrsig.WellRead) (hne : rrset ≠ [])
    (hrrset : List.Forall₂ (WrittenAs owner rrsig.typeCovered class_) rrset datas)
    (hvalid : rrsig.isValidAt now) (hlabels : rrsig.labels.toNat ≤ owner.labels.length)
    (hallowed : ∀ data ∈ datas, ∀ name ∈ data.names, name.Allowed)
    (hdistinct : ((datas.map RawData.lowered).map RawData.wire).Nodup) :
    signedData rrset rrsig now =
      .ok (textOf rrsig owner class_ (datas.map RawData.lowered)) := by
  cases rrset with
  | nil => exact absurd rfl hne
  | cons first rest =>
    have hfirst : first.name = owner ∧ first.recordType = rrsig.typeCovered ∧
        first.class_ = class_ := by
      obtain ⟨data, -, hfirst⟩ := hrrset.exists_right first List.mem_cons_self
      exact ⟨hfirst.name, hfirst.recordType, hfirst.class_⟩
    refine (signedData_eq_ok hread).2 ⟨hvalid, hfirst.2.1, _,
      forall₂_canonicalAs hfirst hlabels hallowed hrrset, isChain_sortedRdatas hdistinct, ?_⟩
    rw [textOf, hfirst.1, hfirst.2.2]

/-- The text in lower case is that of a conforming signer just when the names that are to keep
    their case are in lower case. -/
theorem textOf_lowered_iff (hne : datas ≠ [])
    (hfits : ∀ data ∈ datas, data.Fits rrsig.typeCovered)
    (hlength : ∀ data ∈ datas, data.wire.length ≤ 65535) :
    textOf rrsig owner class_ (datas.map RawData.lowered) = conformingText rrsig owner class_ datas ↔
      ∀ data ∈ datas, ∀ name ∈ data.newNames, name.lower = name := by
  simp only [← RawData.lowered_eq_canonical_iff]
  have hmem (f : RawData → RawData) (rdata : List UInt8) :
      rdata ∈ sortedRdatas ((datas.map f).map RawData.wire) ↔
        ∃ data ∈ datas, (f data).wire = rdata := by
    rw [sortedRdatas, List.mem_insertionSort, List.map_map, List.mem_map]
    rfl
  constructor
  · intro h
    have hsorted : sortedRdatas ((datas.map RawData.lowered).map RawData.wire) =
        sortedRdatas ((datas.map RawData.canonical).map RawData.wire) := by
      refine (message_inj ?_ ?_ ?_ h).2.2.2.2
      · intro rdata hrdata
        obtain ⟨data, hdata, rfl⟩ := (hmem _ rdata).1 hrdata
        rw [RawData.length_wire_lowered]
        exact hlength data hdata
      · intro rdata hrdata
        obtain ⟨data, hdata, rfl⟩ := (hmem _ rdata).1 hrdata
        rw [RawData.length_wire_canonical]
        exact hlength data hdata
      · rw [← List.length_pos_iff, sortedRdatas, List.length_insertionSort, List.length_map,
          List.length_map]
        exact List.length_pos_iff.2 hne
    intro data hdata
    -- What the signer has of the record, the validator has of some record, so in lower case.
    obtain ⟨data', hdata', hwire⟩ := (hmem RawData.lowered data.canonical.wire).1 (by
      rw [hsorted]
      exact (hmem _ _).2 ⟨data, hdata, rfl⟩)
    exact RawData.lowered_eq_canonical_of_wire_eq (hfits data hdata) (hfits data' hdata')
      hwire.symm
  · intro h
    rw [conformingText, List.map_congr_left h]

/-- **The validator takes all names for lower case**: its data are the text of an RRset with every
    name in lower case, which is what a conforming signer signs just when the names that are to keep
    their case are written in lower case. A signature over these data verifies. -/
theorem signedData_eq_lowered [DnssecCrypto] {sigRdata : List UInt8}
    (hrrsig : RrsigRecord.parseRdata sigRdata = .ok rrsig) (hne : rrset ≠ [])
    (hrrset : List.Forall₂ (WrittenAs owner rrsig.typeCovered class_) rrset datas)
    (hvalid : rrsig.isValidAt now) (hlabels : rrsig.labels.toNat ≤ owner.labels.length)
    (hallowed : ∀ data ∈ datas, ∀ name ∈ data.names, name.Allowed)
    (hdistinct : ((datas.map RawData.lowered).map RawData.wire).Nodup) :
    signedData rrset rrsig now =
        .ok (textOf rrsig owner class_ (datas.map RawData.lowered)) ∧
      (signedData rrset rrsig now = .ok (conformingText rrsig owner class_ datas) ↔
        ∀ data ∈ datas, ∀ name ∈ data.newNames, name.lower = name) ∧
      ∀ dnskey, Names rrsig dnskey →
        dnskey.verifies (textOf rrsig owner class_ (datas.map RawData.lowered)) rrsig.signature →
          verifyRrsig rrset rrsig dnskey now = .ok true := by
  have hdata := signedData_eq_textOf (RrsigRecord.wellRead_of_parseRdata hrrsig) hne hrrset hvalid
    hlabels hallowed hdistinct
  refine ⟨hdata, ?_, ?_⟩
  · rw [hdata, Except.ok.injEq]
    refine textOf_lowered_iff ?_ ?_ ?_
    · rintro rfl
      cases hrrset
      exact hne rfl
    · intro data hmem
      obtain ⟨record, -, hrecord⟩ := hrrset.exists_left data hmem
      exact hrecord.fits
    · intro data hmem
      obtain ⟨record, -, hrecord⟩ := hrrset.exists_left data hmem
      rw [← hrecord.rdata]
      exact hrecord.length_le
  · intro dnskey hnames hverifies
    exact verifyRrsig_eq_ok_true.2 ⟨hnames, _, hdata, hverifies⟩

end

namespace ConformingSample

/-- Keys that verify nothing. -/
scoped instance crypto : DnssecCrypto where
  sha1 _ := .zero
  rsaVerify _ _ _ _ _ := false
  p256Key _ := false
  p256Signature _ := false
  p256Verify _ _ _ := false
  p384Verify _ _ _ := false
  ed25519Verify _ _ _ := false

/-- An RRSIG record of the root that covers HTTPS records. -/
def rrsigRdata : List UInt8 := [0, 65, 13, 0, 0, 0, 1, 44, 0, 0, 0, 9, 0, 0, 0, 1, 0, 7, 0, 0xab]

def rrsig : RrsigRecord where
  typeCovered := .https
  algorithm := 13
  labels := 0
  originalTtl := 300
  signatureExpiration := 9
  signatureInception := 1
  keyTag := 7
  signerName := .root
  signature := [0xab]
  signedRdata := [0, 65, 13, 0, 0, 0, 1, 44, 0, 0, 0, 9, 0, 0, 0, 1, 0, 7, 0]

/-- A target in upper case. -/
def target : RawName := ⟨[⟨[0x41], by decide, by decide⟩], by decide⟩

def data : RawData := .svcb [0, 1] target []

def record : ResourceRecord := ⟨.root, .https, 1, 300, [0, 1, 1, 0x41, 0]⟩

theorem writtenAs : WrittenAs .root .https 1 record data :=
  ⟨rfl, rfl, rfl, rfl, by decide, rfl, [], rfl⟩

theorem signedData_record :
    signedData [record] rrsig 5 = .ok (textOf rrsig .root 1 [data.lowered]) :=
  (@signedData_eq_lowered rrsig .root 1 [record] [data] 5 crypto rrsigRdata (by decide +kernel)
    (List.cons_ne_nil _ _) (.cons writtenAs .nil) (by decide) (by decide)
    (List.forall_mem_singleton.2 (List.forall_mem_singleton.2 ⟨by decide, by decide⟩))
    (List.nodup_singleton _)).1

/-- The target is not signed as it is written. -/
theorem signedData_ne_conformingText :
    RrsigRecord.parseRdata rrsigRdata = .ok rrsig ∧ WrittenAs .root .https 1 record data ∧
      signedData [record] rrsig 5 ≠ .ok (conformingText rrsig .root 1 [data]) :=
  ⟨by decide +kernel, writtenAs, by decide +kernel⟩

end ConformingSample

end Hns
