import Hns.Dns.Compression
import Hns.Dnssec.Canonical
import Hns.Resolver.Records

/-!
# Compressed responses

A response may be written with pointers in its names, also in those of the data
of NS, CNAME, SOA, PTR and MX records. The data of a record are kept as they
stand in the message, and read later without it: pointers in them then count
from the start of the data.

* `detached_iff`: when the resolver reads the same from the data as they stand
  and from the data without pointers;
* `seesSame_iff`: when it reads the same from a whole response.
-/

namespace Hns

open DnsName (BackAt PlainAt ShortAt wire parseWire parseWire_iff)

/-! ## Data of records -/

/-- Data are octets and names. -/
inductive RdataPart
  | octets (bytes : List UInt8)
  | name (name : DnsName)
  deriving DecidableEq

/-- A part without pointers. -/
def RdataPart.plain : RdataPart → List UInt8
  | .octets bytes => bytes
  | .name target => wire target.labels

/-- A part stands at the offset, a name as `nameAt` says. -/
def PartAt (nameAt : ℕ → DnsName → ℕ → Prop) (message : List UInt8) (offset : ℕ) :
    RdataPart → ℕ → Prop
  | .octets bytes, stop => bytes <+: message.drop offset ∧ stop = offset + bytes.length
  | .name name, stop => nameAt offset name stop

/-- The types of PTR and MX records. -/
def ptrCode : UInt16 := 12

def mxCode : UInt16 := 15

/-- Which names the data of a type have that may be compressed. -/
def Layout (recordType : RecordType) (parts : List RdataPart) : Prop :=
  match recordType with
  | .ns | .cname => ∃ name, parts = [.name name]
  | .soa => ∃ mname rname timers, parts = [.name mname, .name rname, .octets timers] ∧
      timers.length = 20
  | .unknown code =>
    if code = ptrCode then ∃ name, parts = [.name name]
    else if code = mxCode then ∃ preference name, parts = [.octets preference, .name name] ∧
      preference.length = 2
    else ∃ bytes, parts = [.octets bytes]
  | _ => ∃ bytes, parts = [.octets bytes]

/-- A record as it stands in a message: what its data are, and the octets they are written with. -/
structure CompressedRecord where
  name : DnsName
  recordType : RecordType
  class_ : UInt16
  ttl : UInt32
  parts : List RdataPart
  octets : List UInt8
  layout : Layout recordType parts

namespace CompressedRecord

variable (r : CompressedRecord)

/-- The record with the data as they stand. -/
def compressed : ResourceRecord := ⟨r.name, r.recordType, r.class_, r.ttl, r.octets⟩

/-- The record with the data without pointers. -/
def plain : ResourceRecord := ⟨r.name, r.recordType, r.class_, r.ttl, r.parts.flatMap RdataPart.plain⟩

/-- The record stands at the offset, its names with pointers that point back. -/
def At (message : List UInt8) (offset : ℕ) (r : CompressedRecord) (stop : ℕ) : Prop :=
  RecordAt (BackAt message) message offset r.compressed stop ∧
    ItemsAt (PartAt (BackAt message) message) (stop - r.octets.length) r.parts stop

/-- What the data are can be read from the octets by themselves. -/
def Detached : Prop :=
  match r.recordType with
  | .ns | .cname | .soa => ItemsAt (PartAt (ShortAt r.octets) r.octets) 0 r.parts r.octets.length
  | _ => r.octets = r.plain.rdata

end CompressedRecord

/-! ## What is read from data -/

/-- What the resolver reads from the two records is the same. -/
structure Agree (r r' : ResourceRecord) : Prop where
  name : r.name = r'.name
  recordType : r.recordType = r'.recordType
  class_ : r.class_ = r'.class_
  ttl : r.ttl = r'.ttl
  target : recordNameRdata r = recordNameRdata r'
  address : recordAddress r = recordAddress r'
  canonical : canonicalRdata r = canonicalRdata r'

theorem Agree.of_eq {r r' : ResourceRecord} (h : r = r') : Agree r r' := by
  rw [h]
  exact ⟨rfl, rfl, rfl, rfl, rfl, rfl, rfl⟩

theorem recordNameRdata_eq_some {record : ResourceRecord} {target : DnsName} :
    recordNameRdata record = some target ↔
      ShortAt record.rdata 0 target record.rdata.length := by
  rw [← parseWire_iff, recordNameRdata]
  constructor
  · intro h
    split at h
    · rename_i name stop hparse
      split_ifs at h with hstop
      cases h
      rw [hparse, hstop]
    · cases h
  · intro h
    rw [h]
    exact if_pos rfl

theorem canonicalSingleNameRdata_eq_ok {record : ResourceRecord} {target : DnsName}
    (h : ShortAt record.rdata 0 target record.rdata.length) :
    canonicalSingleNameRdata record = .ok (wire target.labels) := by
  rw [canonicalSingleNameRdata, parseWire_iff.2 h]
  simp [Except.mapError, encodeCanonicalName]

theorem canonicalSoaRdata_eq_ok {record : ResourceRecord} {bytes : List UInt8} :
    canonicalSoaRdata record = .ok bytes ↔ ∃ mname rname c c',
      ShortAt record.rdata 0 mname c ∧ ShortAt record.rdata c rname c' ∧
        c' + 20 = record.rdata.length ∧
        bytes = wire mname.labels ++ wire rname.labels ++ (record.rdata.drop c').take 20 := by
  constructor
  · intro h
    obtain ⟨⟨mname, c⟩, hmname, h⟩ := Except.bind_eq_ok.1 h
    obtain ⟨⟨rname, c'⟩, hrname, h⟩ := Except.bind_eq_ok.1 h
    obtain ⟨_, h⟩ := Except.throw_unless.1 h
    obtain ⟨hend, h⟩ := Except.throw_unless.1 h
    simp only [encodeCanonicalName, DnsName.encodeWire_eq_ok, Except.mapError, Except.ok_bind] at h
    cases h
    exact ⟨mname, rname, c, c', parseWire_iff.1 (Except.mapError_eq_ok.1 hmname),
      parseWire_iff.1 (Except.mapError_eq_ok.1 hrname), not_not.1 hend, rfl⟩
  · rintro ⟨mname, rname, c, c', hmname, hrname, hend, rfl⟩
    rw [canonicalSoaRdata, parseWire_iff.2 hmname]
    simp only [Except.mapError, Except.ok_bind]
    rw [parseWire_iff.2 hrname]
    simp only [Except.ok_bind, hend, lt_irrefl, if_false, ne_eq, not_true_eq_false,
      encodeCanonicalName, DnsName.encodeWire_eq_ok, Except.mapError]
    rfl

/-- Data that are a name. -/
theorem agree_of_single {r r' : ResourceRecord} {target : DnsName}
    (hframe : r' = { r with rdata := r'.rdata }) (htype : r.recordType = .ns ∨ r.recordType = .cname)
    (h : ShortAt r.rdata 0 target r.rdata.length) (h' : ShortAt r'.rdata 0 target r'.rdata.length) :
    Agree r r' := by
  have hname : recordNameRdata r = recordNameRdata r' := by
    rw [recordNameRdata_eq_some.2 h, recordNameRdata_eq_some.2 h']
  have hsingle : canonicalSingleNameRdata r = canonicalSingleNameRdata r' := by
    rw [canonicalSingleNameRdata_eq_ok h, canonicalSingleNameRdata_eq_ok h']
  have htype' : r'.recordType = r.recordType := by rw [hframe]
  refine ⟨?_, htype'.symm, ?_, ?_, hname, ?_, ?_⟩
  · rw [hframe]
  · rw [hframe]
  · rw [hframe]
  · rcases htype with h | h <;> simp [recordAddress, htype', h]
  · rcases htype with h | h <;> simpa [canonicalRdata, htype', h] using hsingle

/-- Data of an SOA record: two names and the timers. -/
structure SoaAt (rdata : List UInt8) (mname rname : DnsName) (timers : List UInt8) : Prop where
  names : ∃ c c', ShortAt rdata 0 mname c ∧ ShortAt rdata c rname c' ∧ timers = rdata.drop c' ∧
    c' ≤ rdata.length
  length : timers.length = 20

theorem SoaAt.canonicalSoaRdata_eq {record : ResourceRecord} {mname rname : DnsName}
    {timers : List UInt8} (h : SoaAt record.rdata mname rname timers) :
    canonicalSoaRdata record = .ok (wire mname.labels ++ wire rname.labels ++ timers) := by
  obtain ⟨⟨c, c', hmname, hrname, rfl, hle⟩, hlength⟩ := h
  refine canonicalSoaRdata_eq_ok.2 ⟨mname, rname, c, c', hmname, hrname, ?_, ?_⟩
  · rw [List.length_drop] at hlength
    omega
  · rw [List.take_of_length_le hlength.le]

theorem soaAt_of_canonicalSoaRdata {record : ResourceRecord} {mname rname : DnsName}
    {timers : List UInt8} (hlength : timers.length = 20)
    (h : canonicalSoaRdata record = .ok (wire mname.labels ++ wire rname.labels ++ timers)) :
    SoaAt record.rdata mname rname timers := by
  obtain ⟨mname', rname', c, c', hmname, hrname, hend, hbytes⟩ := canonicalSoaRdata_eq_ok.1 h
  rw [List.append_assoc, List.append_assoc] at hbytes
  obtain ⟨hfirst, hrest⟩ := DnsName.wire_append_inj hbytes
  obtain ⟨hsecond, htimers⟩ := DnsName.wire_append_inj hrest
  have hdrop : (record.rdata.drop c').length = 20 := by
    rw [List.length_drop]
    omega
  rw [List.take_of_length_le hdrop.le] at htimers
  rw [← hfirst] at hmname
  rw [← hsecond] at hrname
  exact ⟨⟨c, c', hmname, hrname, htimers, by omega⟩, hlength⟩

/-- The data are more than a name. -/
theorem SoaAt.recordNameRdata_eq {record : ResourceRecord} {mname rname : DnsName}
    {timers : List UInt8} (h : SoaAt record.rdata mname rname timers) :
    recordNameRdata record = none := by
  obtain ⟨⟨c, c', hmname, ⟨jumps, -, hrname⟩, -⟩, -⟩ := h
  by_contra hsome
  obtain ⟨target, htarget⟩ := Option.ne_none_iff_exists'.1 hsome
  have hparse := parseWire_iff.2 (recordNameRdata_eq_some.1 htarget)
  rw [parseWire_iff.2 hmname] at hparse
  obtain ⟨-, hend⟩ := Prod.mk.inj (Except.ok.inj hparse)
  exact absurd hrname.offset_lt (not_lt.2 hend.ge)

theorem soaAt_plain (mname rname : DnsName) {timers : List UInt8} (hlength : timers.length = 20) :
    SoaAt (wire mname.labels ++ (wire rname.labels ++ timers)) mname rname timers := by
  refine ⟨⟨(wire mname.labels).length, (wire mname.labels).length + (wire rname.labels).length,
    .of_plainAt ⟨wire rname.labels ++ timers, rfl, (Nat.zero_add _).symm⟩,
    .of_plainAt ⟨timers, List.drop_left, rfl⟩, ?_, ?_⟩, hlength⟩
  · rw [← List.drop_drop, List.drop_left, List.drop_left]
  · rw [List.length_append, List.length_append]
    omega

theorem agree_of_soa {r r' : ResourceRecord} {mname rname : DnsName} {timers : List UInt8}
    (hframe : r' = { r with rdata := r'.rdata }) (htype : r.recordType = .soa)
    (h : SoaAt r.rdata mname rname timers) (h' : SoaAt r'.rdata mname rname timers) : Agree r r' := by
  have hsoa : canonicalSoaRdata r = canonicalSoaRdata r' := by
    rw [h.canonicalSoaRdata_eq, h'.canonicalSoaRdata_eq]
  have htype' : r'.recordType = .soa := by rw [hframe, htype]
  refine ⟨?_, ?_, ?_, ?_, ?_, ?_, ?_⟩
  · rw [hframe]
  · rw [hframe]
  · rw [hframe]
  · rw [hframe]
  · rw [h.recordNameRdata_eq, h'.recordNameRdata_eq]
  · simp [recordAddress, htype, htype']
  · simpa [canonicalRdata, htype, htype'] using hsoa

section Detached

variable {nameAt : ℕ → DnsName → ℕ → Prop} {message : List UInt8}

theorem itemsAt_singleton {α : Type} {itemAt : ℕ → α → ℕ → Prop} {item : α} {offset stop : ℕ} :
    ItemsAt itemAt offset [item] stop ↔ itemAt offset item stop := by
  constructor
  · intro h
    cases h with
    | cons hitem hnil =>
      cases hnil
      exact hitem
  · intro h
    exact .cons h (.nil stop)

/-- The parts of the data of an SOA record stand there up to the end. -/
theorem itemsAt_soa {mname rname : DnsName} {timers rdata : List UInt8} (hlength : timers.length = 20) :
    ItemsAt (PartAt (ShortAt rdata) rdata) 0 [.name mname, .name rname, .octets timers]
      rdata.length ↔ SoaAt rdata mname rname timers := by
  constructor
  · intro h
    cases h with
    | cons hmname h =>
      cases h with
      | cons hrname h =>
        rename_i c c'
        obtain ⟨⟨rest, hrest⟩, hend⟩ := itemsAt_singleton.1 h
        have hdrop := congrArg List.length hrest
        rw [List.length_append, List.length_drop] at hdrop
        obtain rfl : rest = [] := List.eq_nil_of_length_eq_zero (by omega)
        rw [List.append_nil] at hrest
        exact ⟨⟨c, c', hmname, hrname, hrest, by omega⟩, hlength⟩
  · rintro ⟨⟨c, c', hmname, hrname, rfl, hle⟩, hlength⟩
    refine .cons hmname (.cons hrname (itemsAt_singleton.2 ⟨List.prefix_rfl, ?_⟩))
    rw [List.length_drop]
    omega

end Detached

theorem CompressedRecord.agree_of_octets_eq {r : CompressedRecord} (h : r.octets = r.plain.rdata) :
    Agree r.compressed r.plain := by
  refine .of_eq ?_
  rw [compressed, h]
  rfl

/-- Data that are a name can be read by themselves just when the name is read from them. -/
theorem agree_single_iff {r : CompressedRecord} {target : DnsName}
    (htype : r.recordType = .ns ∨ r.recordType = .cname) (hparts : r.parts = [.name target]) :
    ShortAt r.octets 0 target r.octets.length ↔ Agree r.compressed r.plain := by
  have hplain : r.plain.rdata = wire target.labels := by
    simp [CompressedRecord.plain, hparts, RdataPart.plain]
  have hread : ShortAt r.plain.rdata 0 target r.plain.rdata.length := by
    rw [hplain]
    exact .of_plainAt ⟨[], (List.append_nil _).symm, (Nat.zero_add _).symm⟩
  constructor
  · intro h
    exact agree_of_single rfl htype h hread
  · intro h
    have htarget := h.target
    rw [recordNameRdata_eq_some.2 hread] at htarget
    exact recordNameRdata_eq_some.1 htarget

theorem agree_soa_iff {r : CompressedRecord} {mname rname : DnsName} {timers : List UInt8}
    (htype : r.recordType = .soa) (hparts : r.parts = [.name mname, .name rname, .octets timers])
    (hlength : timers.length = 20) :
    SoaAt r.octets mname rname timers ↔ Agree r.compressed r.plain := by
  have hplain : r.plain.rdata = wire mname.labels ++ (wire rname.labels ++ timers) := by
    simp [CompressedRecord.plain, hparts, RdataPart.plain]
  have hread : SoaAt r.plain.rdata mname rname timers := by
    rw [hplain]
    exact soaAt_plain mname rname hlength
  have htype' : r.compressed.recordType = .soa := htype
  have htype'' : r.plain.recordType = .soa := htype
  constructor
  · intro h
    exact agree_of_soa rfl htype h hread
  · intro h
    have hcanonical : canonicalSoaRdata r.compressed = canonicalSoaRdata r.plain := by
      simpa [canonicalRdata, htype', htype''] using h.canonical
    rw [hread.canonicalSoaRdata_eq] at hcanonical
    exact soaAt_of_canonicalSoaRdata hlength hcanonical

/-- The resolver reads the same from the data as they stand and from the data without pointers, just
    when the data can be read by themselves. -/
theorem detached_iff {r : CompressedRecord}
    (hraw : ∀ bytes, r.parts = [.octets bytes] → r.octets = bytes) :
    r.Detached ↔ Agree r.compressed r.plain := by
  have hlayout := r.layout
  have hother (h : ∃ bytes, r.parts = [.octets bytes]) : r.octets = r.plain.rdata := by
    obtain ⟨bytes, hparts⟩ := h
    rw [CompressedRecord.plain, hparts, hraw bytes hparts]
    simp [RdataPart.plain]
  rw [CompressedRecord.Detached]
  cases htype : r.recordType with
  | ns =>
    rw [htype] at hlayout
    obtain ⟨target, hparts⟩ := hlayout
    rw [hparts, itemsAt_singleton]
    exact agree_single_iff (.inl htype) hparts
  | cname =>
    rw [htype] at hlayout
    obtain ⟨target, hparts⟩ := hlayout
    rw [hparts, itemsAt_singleton]
    exact agree_single_iff (.inr htype) hparts
  | soa =>
    rw [htype] at hlayout
    obtain ⟨mname, rname, timers, hparts, hlength⟩ := hlayout
    rw [hparts, itemsAt_soa hlength]
    exact agree_soa_iff htype hparts hlength
  | unknown code =>
    -- The data are hashed as they stand, also those of PTR and MX records.
    refine ⟨r.agree_of_octets_eq, fun h => ?_⟩
    have hcanonical := h.canonical
    simp only [canonicalRdata, CompressedRecord.compressed, CompressedRecord.plain, htype] at hcanonical
    exact Except.ok.inj hcanonical
  | _ =>
    rw [htype] at hlayout
    exact ⟨r.agree_of_octets_eq, fun _ => hother hlayout⟩

section Agree

variable {l l' : List ResourceRecord}

theorem forall₂_recordsFor (h : List.Forall₂ Agree l l') (owner : DnsName) (recordType : RecordType) :
    List.Forall₂ Agree (recordsFor l owner recordType) (recordsFor l' owner recordType) := by
  refine List.rel_filter (fun r r' hagree => ?_) h
  dsimp only
  rw [hagree.name, hagree.recordType]

theorem filterMap_eq_of_forall₂ {α β γ : Type} {R : α → β → Prop} {f : α → Option γ}
    {g : β → Option γ} (hfg : ∀ a b, R a b → f a = g b) {l : List α} {l' : List β}
    (h : List.Forall₂ R l l') : l.filterMap f = l'.filterMap g := by
  induction h with
  | nil => rfl
  | cons hab _ ih => rw [List.filterMap_cons, List.filterMap_cons, hfg _ _ hab, ih]

theorem cnameTarget_eq_of_agree (h : List.Forall₂ Agree l l') : cnameTarget l = cnameTarget l' := by
  cases h with
  | nil => rfl
  | cons hagree hrest =>
    cases hrest with
    | nil => rw [cnameTarget, cnameTarget, hagree.recordType, hagree.target]
    | cons => rfl

theorem addressesOf_eq_of_agree {additionals additionals' : List ResourceRecord}
    (h : List.Forall₂ Agree l l') (hadditionals : List.Forall₂ Agree additionals additionals') :
    addressesOf l additionals = addressesOf l' additionals' := by
  have hnames : l.filterMap recordNameRdata = l'.filterMap recordNameRdata :=
    filterMap_eq_of_forall₂ (fun _ _ hagree => hagree.target) h
  have haddresses (name : DnsName) :
      (additionals.filter fun record => record.name = name).filterMap recordAddress =
        (additionals'.filter fun record => record.name = name).filterMap recordAddress := by
    refine filterMap_eq_of_forall₂ (fun _ _ hagree => hagree.address)
      (List.rel_filter (fun r r' hagree => ?_) hadditionals)
    dsimp only
    rw [hagree.name]
  simp only [addressesOf, hnames, haddresses]

end Agree

/-- Data that are octets stand as they are. -/
theorem CompressedRecord.At.octets_eq {message : List UInt8} {offset stop : ℕ} {r : CompressedRecord}
    (h : r.At message offset stop) : ∀ bytes, r.parts = [.octets bytes] → r.octets = bytes := by
  intro bytes hparts
  obtain ⟨⟨cursor, t₁, t₂, c₁, c₂, l₁, l₂, l₃, l₄, r₁, r₂, rest, -, hdrop, -, -, -, -, hstop⟩,
    hitems⟩ := h
  rw [compressed] at hdrop hstop
  have hstart : stop - r.octets.length = cursor + 10 := by
    rw [hstop]
    exact Nat.add_sub_cancel _ _
  rw [hparts, hstart] at hitems
  obtain ⟨hbegin, hend⟩ := itemsAt_singleton.1 hitems
  have htail : message.drop (cursor + 10) = r.octets ++ rest := by
    rw [← List.drop_drop, hdrop]
    rfl
  rw [htail] at hbegin
  have hlength : bytes.length = r.octets.length := by
    rw [hstop] at hend
    exact (Nat.add_left_cancel hend).symm
  have hsame := List.prefix_of_prefix_length_le hbegin (List.prefix_append _ _) hlength.le
  exact (hsame.eq_of_length hlength).symm

/-! ## Responses -/

/-- A response as it stands in a message. -/
structure CompressedMessage where
  header : DnsHeader
  questions : List DnsQuestion
  answers : List CompressedRecord
  authorities : List CompressedRecord
  additionals : List CompressedRecord

namespace CompressedMessage

variable (response : CompressedMessage)

/-- The response with the data of the records as they stand. -/
def compressed : DnsMessage where
  header := response.header
  questions := response.questions
  answers := response.answers.map CompressedRecord.compressed
  authorities := response.authorities.map CompressedRecord.compressed
  additionals := response.additionals.map CompressedRecord.compressed

/-- The response without pointers. -/
def plain : DnsMessage where
  header := response.header
  questions := response.questions
  answers := response.answers.map CompressedRecord.plain
  authorities := response.authorities.map CompressedRecord.plain
  additionals := response.additionals.map CompressedRecord.plain

def records : List CompressedRecord :=
  response.answers ++ response.authorities ++ response.additionals

/-- The octets are the response, with pointers that point back. -/
structure At (octets : List UInt8) : Prop where
  header : DnsHeader.parse (octets.take 12) = .ok response.header
  questionCount : response.questions.length = response.header.questionCount.toNat
  answerCount : response.answers.length = response.header.answerCount.toNat
  authorityCount : response.authorities.length = response.header.authorityCount.toNat
  additionalCount : response.additionals.length = response.header.additionalCount.toNat
  sections : ∃ a b c, ItemsAt (QuestionAt (BackAt octets) octets) 12 response.questions a ∧
    ItemsAt (CompressedRecord.At octets) a response.answers b ∧
    ItemsAt (CompressedRecord.At octets) b response.authorities c ∧
    ItemsAt (CompressedRecord.At octets) c response.additionals octets.length

end CompressedMessage

/-- The parser reads both messages, and the resolver reads the same from both: from each record, and
    the targets of CNAME records and the addresses of name servers from the sections. -/
def SeesSame (octets octets' : List UInt8) : Prop :=
  ∃ message message', DnsMessage.parse octets = .ok message ∧ DnsMessage.parse octets' = .ok message' ∧
    message.header = message'.header ∧ message.questions = message'.questions ∧
    List.Forall₂ Agree message.answers message'.answers ∧
    List.Forall₂ Agree message.authorities message'.authorities ∧
    List.Forall₂ Agree message.additionals message'.additionals ∧
    (∀ owner, cnameTarget (recordsFor message.answers owner .cname) =
      cnameTarget (recordsFor message'.answers owner .cname)) ∧
    ∀ owner, referralNameserverAddresses (recordsFor message.authorities owner .ns)
      message.additionals =
        referralNameserverAddresses (recordsFor message'.authorities owner .ns) message'.additionals

namespace CompressedMessage

variable {response : CompressedMessage} {octets octets' : List UInt8}

theorem At.messageAt (h : response.At octets) :
    MessageAt (BackAt octets) octets response.compressed := by
  obtain ⟨a, b, c, hquestions, hanswers, hauthorities, hadditionals⟩ := h.sections
  exact {
    header := h.header
    questionCount := h.questionCount
    answerCount := by simpa [compressed] using h.answerCount
    authorityCount := by simpa [compressed] using h.authorityCount
    additionalCount := by simpa [compressed] using h.additionalCount
    sections := ⟨a, b, c, hquestions, hanswers.imp fun _ _ _ hat => hat.1,
      hauthorities.imp fun _ _ _ hat => hat.1, hadditionals.imp fun _ _ _ hat => hat.1⟩ }

theorem At.octets_eq (h : response.At octets) :
    ∀ r ∈ response.records, ∀ bytes, r.parts = [.octets bytes] → r.octets = bytes := by
  obtain ⟨a, b, c, -, hanswers, hauthorities, hadditionals⟩ := h.sections
  rw [records, List.forall_mem_append, List.forall_mem_append]
  exact ⟨⟨hanswers.forall_mem fun _ _ _ hat => hat.octets_eq,
    hauthorities.forall_mem fun _ _ _ hat => hat.octets_eq⟩,
    hadditionals.forall_mem fun _ _ _ hat => hat.octets_eq⟩

theorem withinLimits_iff : response.compressed.WithinLimits ↔ response.plain.WithinLimits := by
  constructor
  · rintro ⟨hquestions, hrecords⟩
    refine ⟨hquestions, ?_⟩
    simpa [DnsMessage.totalRecords, compressed, plain] using hrecords
  · rintro ⟨hquestions, hrecords⟩
    refine ⟨hquestions, ?_⟩
    simpa [DnsMessage.totalRecords, compressed, plain] using hrecords

theorem forall₂_agree_iff {rs : List CompressedRecord} :
    List.Forall₂ Agree (rs.map CompressedRecord.compressed) (rs.map CompressedRecord.plain) ↔
      ∀ r ∈ rs, Agree r.compressed r.plain := by
  rw [List.forall₂_map_left_iff, List.forall₂_map_right_iff, List.forall₂_same]

/-- The resolver sees the same in a response with pointers that point back and in the response
    without pointers, just when the response is within the limits of the parser, no name outside the
    data takes more than sixteen pointers, and the data can be read by themselves. -/
theorem seesSame_iff (hat : response.At octets)
    (hplain : MessageAt (PlainAt octets') octets' response.plain) :
    SeesSame octets octets' ↔ response.plain.WithinLimits ∧
      MessageAt (ShortAt octets) octets response.compressed ∧ ∀ r ∈ response.records, r.Detached := by
  have hdetached : (∀ r ∈ response.records, r.Detached) ↔
      ∀ r ∈ response.records, Agree r.compressed r.plain :=
    forall₂_congr fun r hr => detached_iff (hat.octets_eq r hr)
  rw [hdetached]
  have hparsePlain (hlimits : response.plain.WithinLimits) :
      DnsMessage.parse octets' = .ok response.plain := by
    exact parse_iff.2 ⟨hplain.mono fun _ _ _ => ShortAt.of_plainAt, hlimits⟩
  constructor
  · rintro ⟨message, message', hparse, hparse', -, -, hanswers, hauthorities, hadditionals, -, -⟩
    obtain rfl := eq_of_parse_of_backAt hat.messageAt hparse
    obtain ⟨hshort, hlimits⟩ := parse_iff.1 hparse
    have hlimits' := withinLimits_iff.1 hlimits
    rw [hparsePlain hlimits'] at hparse'
    obtain rfl := Except.ok.inj hparse'
    refine ⟨hlimits', hshort, ?_⟩
    rw [records, List.forall_mem_append, List.forall_mem_append]
    exact ⟨⟨forall₂_agree_iff.1 hanswers, forall₂_agree_iff.1 hauthorities⟩,
      forall₂_agree_iff.1 hadditionals⟩
  · rintro ⟨hlimits, hshort, hagree⟩
    rw [records, List.forall_mem_append, List.forall_mem_append] at hagree
    obtain ⟨⟨hanswers, hauthorities⟩, hadditionals⟩ := hagree
    have hanswers := forall₂_agree_iff.2 hanswers
    have hauthorities := forall₂_agree_iff.2 hauthorities
    have hadditionals := forall₂_agree_iff.2 hadditionals
    refine ⟨response.compressed, response.plain, parse_iff.2 ⟨hshort, withinLimits_iff.2 hlimits⟩,
      hparsePlain hlimits, rfl, rfl, hanswers, hauthorities, hadditionals, fun owner => ?_,
      fun owner => ?_⟩
    · exact cnameTarget_eq_of_agree (forall₂_recordsFor hanswers owner .cname)
    · exact addressesOf_eq_of_agree (forall₂_recordsFor hauthorities owner .ns) hadditionals

end CompressedMessage

namespace CompressedSample

def z : DnsLabel := .letter 25

def w : DnsLabel := .letter 22

def apex : DnsName := ⟨[z], by decide⟩

def target : DnsName := ⟨[w, z], by decide⟩

/-- A CNAME record, the end of its target written as a pointer to the question. -/
def record : CompressedRecord where
  name := apex
  recordType := .cname
  class_ := 1
  ttl := 300
  parts := [.name target]
  octets := [1, 0x77, 0xc0, 12]
  layout := ⟨target, rfl⟩

def response : CompressedMessage where
  header := ⟨0, ⟨0x8000⟩, 1, 1, 0, 0⟩
  questions := [⟨apex, .cname, 1⟩]
  answers := [record]
  authorities := []
  additionals := []

/-- The header and the question. -/
def front : List UInt8 := [0, 0, 0x80, 0, 0, 1, 0, 1, 0, 0, 0, 0, 1, 0x7a, 0, 0, 5, 0, 1]

def octets : List UInt8 := front ++ [0xc0, 12, 0, 5, 0, 1, 0, 0, 1, 44, 0, 4, 1, 0x77, 0xc0, 12]

def octets' : List UInt8 :=
  front ++ [1, 0x7a, 0, 0, 5, 0, 1, 0, 0, 1, 44, 0, 5, 1, 0x77, 1, 0x7a, 0]

/-- The name of the question. -/
theorem nameAt_apex : DnsName.NameAt DnsName.backwards octets 0 12 [z] 15 :=
  have hlength : octets[12]? = some 1 := rfl
  .label hlength rfl (by decide) (by decide) (by decide) (.root rfl)

/-- The pointers lead to the name of the question. -/
theorem nameAt_pointer {offset : ℕ} (hlength : octets[offset]? = some 0xc0)
    (hnext : octets[offset + 1]? = some 12) (hback : 12 < offset) :
    DnsName.NameAt DnsName.backwards octets 1 offset [z] (offset + 2) :=
  .pointer hlength rfl hnext hback nameAt_apex

theorem at_octets : response.At octets where
  header := rfl
  questionCount := rfl
  answerCount := rfl
  authorityCount := rfl
  additionalCount := rfl
  sections := by
    refine ⟨19, 35, 35, itemsAt_singleton.2 ?_, itemsAt_singleton.2 ⟨?_, itemsAt_singleton.2 ?_⟩,
      .nil 35, .nil 35⟩
    · exact ⟨15, 0, 5, 0, 1, _, ⟨0, nameAt_apex⟩, rfl, rfl, rfl, rfl⟩
    · refine ⟨21, 0, 5, 0, 1, 0, 0, 1, 44, 0, 4, [], ⟨1, ?_⟩, rfl, rfl, rfl, rfl, rfl, rfl⟩
      exact nameAt_pointer rfl rfl (by decide)
    · have hlength : octets[31]? = some 1 := rfl
      refine ⟨1, .label hlength rfl (by decide) (by decide) (by decide) ?_⟩
      exact nameAt_pointer rfl rfl (by decide)

theorem messageAt_octets' : MessageAt (PlainAt octets') octets' response.plain where
  header := rfl
  questionCount := rfl
  answerCount := rfl
  authorityCount := rfl
  additionalCount := rfl
  sections := by
    refine ⟨19, 37, 37, itemsAt_singleton.2 ?_, itemsAt_singleton.2 ?_, .nil 37, .nil 37⟩
    · exact ⟨15, 0, 5, 0, 1, _, ⟨_, rfl, rfl⟩, rfl, rfl, rfl, rfl⟩
    · exact ⟨22, 0, 5, 0, 1, 0, 0, 1, 44, 0, 5, [], ⟨_, rfl, rfl⟩, rfl, rfl, rfl, rfl, rfl, rfl⟩

/-- The target of the CNAME record is read only without the pointer. -/
theorem not_seesSame :
    response.At octets ∧ MessageAt (PlainAt octets') octets' response.plain ∧
      ¬SeesSame octets octets' := by
  refine ⟨at_octets, messageAt_octets', ?_⟩
  rintro ⟨message, message', hparse, hparse', -, -, hanswers, -⟩
  have hread : DnsMessage.parse octets = .ok response.compressed := by decide +kernel
  have hread' : DnsMessage.parse octets' = .ok response.plain := by decide +kernel
  rw [hread] at hparse
  rw [hread'] at hparse'
  obtain rfl := Except.ok.inj hparse
  obtain rfl := Except.ok.inj hparse'
  have hagree := (List.forall₂_cons.1 hanswers).1
  have hne : recordNameRdata record.compressed ≠ recordNameRdata record.plain := by decide +kernel
  exact hne hagree.target

theorem seesSame_iff_octets :
    SeesSame octets octets' ↔ response.plain.WithinLimits ∧
      MessageAt (ShortAt octets) octets response.compressed ∧ ∀ r ∈ response.records, r.Detached :=
  CompressedMessage.seesSame_iff at_octets messageAt_octets'

end CompressedSample

end Hns
