import Hns.Dnssec.Chain

/-!
# What a signature says

A signature that verifies is one over a message (`message`): the fields of the
RRSIG record, the name of the signer, and the records in canonical form. The
message tells them all (`message_inj`), with one exception: the owner it tells
is the one that was signed, which stands for every name below it when it is a
wildcard (`signedLabels_eq`).
-/

namespace Hns

/-! ## Messages -/

/-- The fields at the front of the data of an RRSIG record. -/
structure SignatureFields where
  typeCode : UInt16
  algorithm : UInt8
  labels : UInt8
  originalTtl : UInt32
  expiration : UInt32
  inception : UInt32
  keyTag : UInt16

namespace SignatureFields

def encode (fields : SignatureFields) : List UInt8 :=
  fields.typeCode.toBE ++ ([fields.algorithm, fields.labels] ++ (fields.originalTtl.toBE ++
    (fields.expiration.toBE ++ (fields.inception.toBE ++ fields.keyTag.toBE))))

@[simp] theorem length_encode (fields : SignatureFields) : fields.encode.length = 18 := by
  simp [encode]

theorem selfDelimiting_encode : Octet.SelfDelimiting encode := by
  refine .of_length 18 length_encode fun a b h => ?_
  obtain ⟨htype, h⟩ := Octet.selfDelimiting_toBE16 h
  have hlen : [a.algorithm, a.labels].length = [b.algorithm, b.labels].length := rfl
  obtain ⟨hpair, h⟩ := Octet.append_inj_of_length hlen h
  obtain ⟨httl, h⟩ := Octet.selfDelimiting_toBE32 h
  obtain ⟨hexp, h⟩ := Octet.selfDelimiting_toBE32 h
  obtain ⟨hinc, h⟩ := Octet.selfDelimiting_toBE32 h
  have htag := Octet.selfDelimiting_toBE16.injective h
  cases a
  cases b
  simp_all

end SignatureFields

/-- The records of an RRset of `owner`, in canonical form. -/
def canonicalText (fields : SignatureFields) (owner : List DnsLabel) (class_ : UInt16)
    (rdatas : List (List UInt8)) : List UInt8 :=
  rdatas.flatMap fun rdata => DnsName.wire owner ++ fields.typeCode.toBE ++ class_.toBE ++
    fields.originalTtl.toBE ++ (UInt16.ofNat rdata.length).toBE ++ rdata

/-- What a signature is over. -/
def message (fields : SignatureFields) (signer : DnsName) (owner : List DnsLabel) (class_ : UInt16)
    (rdatas : List (List UInt8)) : List UInt8 :=
  fields.encode ++ DnsName.wire signer.labels ++ canonicalText fields owner class_ rdatas

/-- The data of a record, as far as its length can be written. -/
abbrev Rdata := {rdata : List UInt8 // rdata.length ≤ 65535}

theorem selfDelimiting_rdata :
    Octet.SelfDelimiting fun rdata : Rdata =>
      (UInt16.ofNat rdata.1.length).toBE ++ rdata.1 := by
  rintro ⟨a, ha⟩ ⟨b, hb⟩ x y h
  simp only [List.append_assoc] at h
  obtain ⟨hlen, h⟩ := Octet.selfDelimiting_toBE16 h
  have hlen : a.length = b.length := by
    have := congrArg UInt16.toNat hlen
    rwa [UInt16.toNat_ofNat', UInt16.toNat_ofNat', Nat.mod_eq_of_lt (by omega),
      Nat.mod_eq_of_lt (by omega)] at this
  obtain ⟨rfl, rfl⟩ := Octet.append_inj_of_length hlen h
  exact ⟨rfl, rfl⟩

/-- The text of an RRset tells its owner, its type and class, and the data in order. -/
theorem canonicalText_inj {f f' : SignatureFields} {o o' : List DnsLabel} {c c' : UInt16}
    {l l' : List (List UInt8)} (hl : ∀ rdata ∈ l, rdata.length ≤ 65535)
    (hl' : ∀ rdata ∈ l', rdata.length ≤ 65535) (hne : l ≠ [])
    (h : canonicalText f o c l = canonicalText f' o' c' l') :
    o = o' ∧ f.typeCode = f'.typeCode ∧ c = c' ∧ l = l' := by
  have hcode := DnsName.selfDelimiting_wire.append (Octet.selfDelimiting_toBE16.append
    (Octet.selfDelimiting_toBE16.append (Octet.selfDelimiting_toBE32.append selfDelimiting_rdata)))
  have hinj := hcode.flatMap_injective fun p => by simp [DnsName.wire]
  lift l to List Rdata using hl
  lift l' to List Rdata using hl'
  have heq := @hinj (l.map fun rdata => (o, f.typeCode, c, f.originalTtl, rdata))
    (l'.map fun rdata => (o', f'.typeCode, c', f'.originalTtl, rdata)) (by
      simpa only [canonicalText, List.flatMap_map, List.append_assoc] using h)
  cases l with
  | nil => exact absurd rfl hne
  | cons a l =>
    cases l' with
    | nil => simp at heq
    | cons b l' =>
      simp only [List.map_cons, List.cons.injEq, Prod.mk.injEq] at heq
      obtain ⟨⟨rfl, htype, rfl, httl, rfl⟩, htail⟩ := heq
      refine ⟨rfl, htype, rfl, ?_⟩
      have : l = l' := by
        have := congrArg (List.map fun p => p.2.2.2.2) htail
        simpa [Function.comp_def] using this
      rw [this]

/-- A message tells everything that was signed. -/
theorem message_inj {f f' : SignatureFields} {s s' : DnsName} {o o' : List DnsLabel}
    {c c' : UInt16} {l l' : List (List UInt8)} (hl : ∀ rdata ∈ l, rdata.length ≤ 65535)
    (hl' : ∀ rdata ∈ l', rdata.length ≤ 65535) (hne : l ≠ [])
    (h : message f s o c l = message f' s' o' c' l') :
    f = f' ∧ s = s' ∧ o = o' ∧ c = c' ∧ l = l' := by
  simp only [message, List.append_assoc] at h
  obtain ⟨hf, hrest⟩ := SignatureFields.selfDelimiting_encode h
  obtain ⟨hs, htext⟩ := DnsName.wire_append_inj hrest
  obtain ⟨ho, -, hc, hrdatas⟩ := canonicalText_inj hl hl' hne htext
  exact ⟨hf, hs, ho, hc, hrdatas⟩

/-! ## The data of a signature -/

/-- The fields that have been read of an RRSIG record. -/
def RrsigRecord.fields (rrsig : RrsigRecord) : SignatureFields where
  typeCode := rrsig.typeCovered.code
  algorithm := rrsig.algorithm
  labels := rrsig.labels
  originalTtl := rrsig.originalTtl
  expiration := UInt32.ofNat rrsig.signatureExpiration
  inception := UInt32.ofNat rrsig.signatureInception
  keyTag := rrsig.keyTag

/-- What is signed of an RRSIG record is what has been read of it. -/
structure RrsigRecord.WellRead (rrsig : RrsigRecord) : Prop where
  isKnown : rrsig.typeCovered.IsKnown
  signedRdata : rrsig.signedRdata = rrsig.fields.encode ++ DnsName.wire rrsig.signerName.labels

theorem RrsigRecord.wellRead_of_parseRdata {rdata : List UInt8} {rrsig : RrsigRecord}
    (h : parseRdata rdata = .ok rrsig) : rrsig.WellRead := by
  unfold parseRdata at h
  split at h
  · obtain ⟨⟨signerName, signerEnd⟩, -, h⟩ := Except.bind_eq_ok.1 h
    obtain ⟨-, h⟩ := Except.throw_unless.1 h
    obtain ⟨signer, hsigner, h⟩ := Except.bind_eq_ok.1 h
    rw [Except.mapError_eq_ok, DnsName.encodeWire_eq_ok] at hsigner
    cases hsigner
    cases h
    refine ⟨RecordType.isKnown_fromCode _, ?_⟩
    simp [SignatureFields.encode, fields, Octet.toBE_be16, Octet.toBE_be32]
  · cases h

theorem RrsigRecord.wellRead_of_fromRecord {record : ResourceRecord} {rrsig : RrsigRecord}
    (h : fromRecord record = .ok rrsig) : rrsig.WellRead := by
  rw [fromRecord] at h
  split_ifs at h
  exact wellRead_of_parseRdata h

/-- A record of the RRset that `first` begins, with its data in canonical form. -/
structure CanonicalAs (first : ResourceRecord) (count : ℕ) (record : ResourceRecord)
    (rdata : List UInt8) : Prop where
  recordType : record.recordType = first.recordType
  class_ : record.class_ = first.class_
  count_le : count ≤ record.name.labels.length
  owner : signedLabels record.name count = signedLabels first.name count
  canonical : canonicalRdata record = .ok rdata
  length_le : rdata.length ≤ 65535

/-- The text of a record in canonical form. -/
def CanonicalRecord.of (first : ResourceRecord) (rrsig : RrsigRecord) (rdata : List UInt8) :
    CanonicalRecord :=
  ⟨rdata, canonicalWire (DnsName.wire (signedLabels first.name rrsig.labels.toNat))
    first.recordType first.class_ rrsig.originalTtl rdata⟩

theorem canonicalRecord_eq_ok {first record : ResourceRecord} {rrsig : RrsigRecord}
    {c : CanonicalRecord} :
    canonicalRecord first (DnsName.wire (signedLabels first.name rrsig.labels.toNat)) rrsig record =
        .ok c ↔
      ∃ rdata, CanonicalAs first rrsig.labels.toNat record rdata ∧
        c = CanonicalRecord.of first rrsig rdata := by
  rw [canonicalRecord, Except.throw_unless, not_or, not_not, not_not]
  constructor
  · rintro ⟨⟨htype, hclass⟩, h⟩
    obtain ⟨owner, howner, h⟩ := Except.bind_eq_ok.1 h
    rw [Except.throw_unless] at h
    obtain ⟨hne, h⟩ := h
    obtain ⟨rdata, hrdata, h⟩ := Except.bind_eq_ok.1 h
    obtain ⟨hlen, h⟩ := Except.throw_unless.1 h
    obtain ⟨hcount, rfl⟩ := canonicalOwner_eq_ok.1 howner
    cases h
    rw [not_not] at hne
    refine ⟨rdata, ⟨htype, hclass, hcount, DnsName.selfDelimiting_wire.injective hne, hrdata,
      not_lt.1 hlen⟩, ?_⟩
    rw [CanonicalRecord.of, htype, hclass]
  · rintro ⟨rdata, h, rfl⟩
    refine ⟨⟨h.recordType, h.class_⟩, ?_⟩
    refine Except.bind_eq_ok.2 ⟨_, canonicalOwner_eq_ok.2 ⟨h.count_le, rfl⟩, ?_⟩
    refine Except.throw_unless.2 ⟨not_not.2 (by rw [h.owner]), ?_⟩
    refine Except.bind_eq_ok.2 ⟨rdata, h.canonical, Except.throw_unless.2 ⟨not_lt.2 h.length_le, ?_⟩⟩
    rw [CanonicalRecord.of, h.recordType, h.class_]
    rfl

theorem canonicalRrset_eq_ok {first : ResourceRecord} {rest : List ResourceRecord}
    {rrsig : RrsigRecord} {records : List CanonicalRecord} :
    canonicalRrset (first :: rest) rrsig = .ok records ↔
      first.recordType = rrsig.typeCovered ∧
        ∃ rdatas, List.Forall₂ (CanonicalAs first rrsig.labels.toNat) (first :: rest) rdatas ∧
          records = rdatas.map (CanonicalRecord.of first rrsig) := by
  simp only [canonicalRrset]
  rw [Except.throw_unless, not_not]
  refine and_congr_right fun htype => ?_
  have hmap (records : List ResourceRecord) (cs : List CanonicalRecord) :
      List.Forall₂ (fun record c => canonicalRecord first
          (DnsName.wire (signedLabels first.name rrsig.labels.toNat)) rrsig record = .ok c)
          records cs ↔
        ∃ rdatas, List.Forall₂ (CanonicalAs first rrsig.labels.toNat) records rdatas ∧
          cs = rdatas.map (CanonicalRecord.of first rrsig) := by
    induction records generalizing cs with
    | nil => simp
    | cons record records ih =>
      constructor
      · rintro (_ | ⟨hc, hcs⟩)
        obtain ⟨rdata, hrdata, rfl⟩ := canonicalRecord_eq_ok.1 hc
        obtain ⟨rdatas, hrdatas, rfl⟩ := (ih _).1 hcs
        exact ⟨rdata :: rdatas, .cons hrdata hrdatas, rfl⟩
      · rintro ⟨_, _ | ⟨hrdata, hrdatas⟩, rfl⟩
        exact .cons (canonicalRecord_eq_ok.2 ⟨_, hrdata, rfl⟩) ((ih _).2 ⟨_, hrdatas, rfl⟩)
  constructor
  · intro h
    obtain ⟨owner, howner, h⟩ := Except.bind_eq_ok.1 h
    obtain ⟨-, rfl⟩ := canonicalOwner_eq_ok.1 howner
    exact (hmap _ _).1 (Except.mapM_eq_ok.1 h)
  · rintro ⟨rdatas, h, rfl⟩
    have hcount : rrsig.labels.toNat ≤ first.name.labels.length := by
      rcases h with _ | ⟨hfirst, -⟩
      exact hfirst.count_le
    exact Except.bind_eq_ok.2 ⟨_, canonicalOwner_eq_ok.2 ⟨hcount, rfl⟩,
      Except.mapM_eq_ok.2 ((hmap _ _).2 ⟨rdatas, h, rfl⟩)⟩

/-- The data of an RRset, as they are sorted. -/
def sortedRdatas (rdatas : List (List UInt8)) : List (List UInt8) :=
  rdatas.insertionSort (· ≤ ·)

theorem sortByRdata_map {first : ResourceRecord} {rrsig : RrsigRecord}
    {rdatas : List (List UInt8)} :
    sortByRdata (rdatas.map (CanonicalRecord.of first rrsig)) =
      (sortedRdatas rdatas).map (CanonicalRecord.of first rrsig) := by
  rw [sortByRdata, sortedRdatas]
  exact (List.map_insertionSort (fun a b : List UInt8 => a ≤ b)
    (fun a b : CanonicalRecord => a.rdata ≤ b.rdata) (CanonicalRecord.of first rrsig) rdatas
    fun _ _ _ _ => Iff.rfl).symm

theorem hasAdjacentDuplicate_map {first : ResourceRecord} {rrsig : RrsigRecord}
    {rdatas : List (List UInt8)} :
    hasAdjacentDuplicate (rdatas.map (CanonicalRecord.of first rrsig)) = false ↔
      rdatas.IsChain (· ≠ ·) := by
  induction rdatas with
  | nil => simp [hasAdjacentDuplicate]
  | cons a rdatas ih =>
    cases rdatas with
    | nil => simp [hasAdjacentDuplicate]
    | cons b rdatas =>
      rw [List.map_cons] at ih
      rw [List.map_cons, List.map_cons, hasAdjacentDuplicate, List.isChain_cons_cons, ← ih]
      rw [decide_eq_false_iff_not, not_or, Bool.not_eq_true]
      rfl

/-- The data of a signature are the message of its RRset. -/
theorem signedData_eq_ok {first : ResourceRecord} {rest : List ResourceRecord}
    {rrsig : RrsigRecord} {now : DnssecTime} {data : List UInt8} (hread : rrsig.WellRead) :
    signedData (first :: rest) rrsig now = .ok data ↔
      rrsig.isValidAt now ∧ first.recordType = rrsig.typeCovered ∧
        ∃ rdatas, List.Forall₂ (CanonicalAs first rrsig.labels.toNat) (first :: rest) rdatas ∧
          (sortedRdatas rdatas).IsChain (· ≠ ·) ∧
          data = message rrsig.fields rrsig.signerName
            (signedLabels first.name rrsig.labels.toNat) first.class_ (sortedRdatas rdatas) := by
  have htext (htype : first.recordType = rrsig.typeCovered) (rdatas : List (List UInt8)) :
      rrsig.signedRdata ++ (rdatas.map (CanonicalRecord.of first rrsig)).flatMap
          CanonicalRecord.wire =
        message rrsig.fields rrsig.signerName (signedLabels first.name rrsig.labels.toNat)
          first.class_ rdatas := by
    rw [message, hread.signedRdata, canonicalText, List.flatMap_map]
    simp only [CanonicalRecord.of, canonicalWire, htype]
    rfl
  rw [signedData, Except.throw_unless]
  constructor
  · rintro ⟨hvalid, h⟩
    obtain ⟨records, hrecords, h⟩ := Except.bind_eq_ok.1 h
    obtain ⟨htype, rdatas, hrdatas, rfl⟩ := canonicalRrset_eq_ok.1 hrecords
    obtain ⟨hdup, h⟩ := Except.throw_unless.1 h
    rw [sortByRdata_map] at hdup h
    rw [Bool.not_eq_true, hasAdjacentDuplicate_map] at hdup
    cases h
    exact ⟨by simpa using hvalid, htype, rdatas, hrdatas, hdup, htext htype _⟩
  · rintro ⟨hvalid, htype, rdatas, hrdatas, hdup, rfl⟩
    refine ⟨by simpa using hvalid, ?_⟩
    refine Except.bind_eq_ok.2 ⟨_, canonicalRrset_eq_ok.2 ⟨htype, rdatas, hrdatas, rfl⟩, ?_⟩
    rw [sortByRdata_map, Except.throw_unless, Bool.not_eq_true, hasAdjacentDuplicate_map]
    exact ⟨hdup, congrArg Except.ok (htext htype _)⟩

/-! ## Signatures under a key -/

section

variable [DnssecCrypto]

/-- Whether an RSA key takes the signature for one of the data. -/
def DnskeyRecord.verifiesRsa (dnskey : DnskeyRecord) (hash : RsaHash)
    (data signature : List UInt8) : Bool :=
  match parseRsaPublicKey dnskey.publicKey with
  | .ok (exponent, modulus) => DnssecCrypto.rsaVerify hash modulus exponent data signature
  | .error _ => false

/-- Whether the key, by its algorithm, takes the signature for one of the data. -/
def DnskeyRecord.verifies (dnskey : DnskeyRecord) (data signature : List UInt8) : Bool :=
  if dnskey.algorithm = dnssecAlgorithmRsasha1 ∨
      dnskey.algorithm = dnssecAlgorithmRsasha1Nsec3Sha1 then
    dnskey.verifiesRsa .sha1 data signature
  else if dnskey.algorithm = dnssecAlgorithmRsasha256 then
    dnskey.verifiesRsa .sha256 data signature
  else if dnskey.algorithm = dnssecAlgorithmRsasha512 then
    dnskey.verifiesRsa .sha512 data signature
  else if dnskey.algorithm = dnssecAlgorithmEcdsap256sha256 then
    dnskey.publicKey.length = 64 ∧ signature.length = 64 ∧
      DnssecCrypto.p256Key (0x04 :: dnskey.publicKey) ∧ DnssecCrypto.p256Signature signature ∧
      DnssecCrypto.p256Verify (0x04 :: dnskey.publicKey) data signature
  else if dnskey.algorithm = dnssecAlgorithmEcdsap384sha384 then
    dnskey.publicKey.length = 96 ∧ signature.length = 96 ∧
      DnssecCrypto.p384Verify (0x04 :: dnskey.publicKey) data signature
  else if dnskey.algorithm = dnssecAlgorithmEd25519 then
    dnskey.publicKey.length = 32 ∧ signature.length = 64 ∧
      DnssecCrypto.ed25519Verify dnskey.publicKey data signature
  else false

variable {rrset : List ResourceRecord} {rrsig : RrsigRecord} {dnskey : DnskeyRecord}
  {now : DnssecTime}

theorem verifyRsa_eq_ok_true {hash : RsaHash} :
    verifyRsa rrset rrsig dnskey now hash = .ok true ↔
      ∃ data, signedData rrset rrsig now = .ok data ∧
        dnskey.verifiesRsa hash data rrsig.signature := by
  rw [verifyRsa]
  simp only [DnskeyRecord.verifiesRsa]
  cases parseRsaPublicKey dnskey.publicKey with
  | error e => simp
  | ok key => simp [Except.bind_eq_ok, pure, Except.pure]

theorem verifyEcdsaP256Sha256_eq_ok_true :
    verifyEcdsaP256Sha256 rrset rrsig dnskey now = .ok true ↔
      ∃ data, signedData rrset rrsig now = .ok data ∧
        (dnskey.publicKey.length = 64 ∧ rrsig.signature.length = 64 ∧
          DnssecCrypto.p256Key (0x04 :: dnskey.publicKey) ∧
          DnssecCrypto.p256Signature rrsig.signature ∧
          DnssecCrypto.p256Verify (0x04 :: dnskey.publicKey) data rrsig.signature) := by
  rw [verifyEcdsaP256Sha256, Except.throw_unless, Except.throw_unless, Except.throw_unless,
    Except.throw_unless, Except.bind_eq_ok]
  simp only [pure, Except.pure, Except.ok.injEq, Bool.not_eq_true', Bool.not_eq_false, not_not]
  tauto

theorem verifyEcdsaP384Sha384_eq_ok_true :
    verifyEcdsaP384Sha384 rrset rrsig dnskey now = .ok true ↔
      ∃ data, signedData rrset rrsig now = .ok data ∧
        (dnskey.publicKey.length = 96 ∧ rrsig.signature.length = 96 ∧
          DnssecCrypto.p384Verify (0x04 :: dnskey.publicKey) data rrsig.signature) := by
  rw [verifyEcdsaP384Sha384, Except.throw_unless, Except.throw_unless, Except.bind_eq_ok]
  simp only [pure, Except.pure, Except.ok.injEq, not_not]
  tauto

theorem verifyEd25519_eq_ok_true :
    verifyEd25519 rrset rrsig dnskey now = .ok true ↔
      ∃ data, signedData rrset rrsig now = .ok data ∧
        (dnskey.publicKey.length = 32 ∧ rrsig.signature.length = 64 ∧
          DnssecCrypto.ed25519Verify dnskey.publicKey data rrsig.signature) := by
  rw [verifyEd25519, Except.throw_unless, Except.throw_unless, Except.bind_eq_ok]
  simp only [pure, Except.pure, Except.ok.injEq, not_not]
  tauto

/-- The key is one to sign zones with, and the signature names it. -/
structure Names (rrsig : RrsigRecord) (dnskey : DnskeyRecord) : Prop where
  flags : dnskey.flags &&& dnskeyZoneFlag ≠ 0
  algorithm : rrsig.algorithm = dnskey.algorithm
  keyTag : rrsig.keyTag = dnskey.keyTag

/-- A signature verifies when it names the key and the key takes it for one of the data. -/
theorem verifyRrsig_eq_ok_true :
    verifyRrsig rrset rrsig dnskey now = .ok true ↔
      Names rrsig dnskey ∧ ∃ data, signedData rrset rrsig now = .ok data ∧
        dnskey.verifies data rrsig.signature := by
  rw [verifyRrsig]
  by_cases hnames : Names rrsig dnskey
  · have hor : ¬(rrsig.algorithm ≠ dnskey.algorithm ∨ rrsig.keyTag ≠ dnskey.keyTag) := by
      rintro (h | h)
      · exact h hnames.algorithm
      · exact h hnames.keyTag
    rw [if_neg hnames.flags, if_neg hor, hnames.algorithm]
    simp only [hnames, true_and, DnskeyRecord.verifies]
    -- The algorithms, in the order they are tried.
    split_ifs
    · exact verifyRsa_eq_ok_true
    · exact verifyRsa_eq_ok_true
    · exact verifyRsa_eq_ok_true
    · simpa using verifyEcdsaP256Sha256_eq_ok_true
    · simpa using verifyEcdsaP384Sha384_eq_ok_true
    · simpa using verifyEd25519_eq_ok_true
    · simp
  · simp only [hnames, false_and, iff_false]
    by_cases hflags : dnskey.flags &&& dnskeyZoneFlag = 0
    · simp [hflags]
    by_cases hor : rrsig.algorithm ≠ dnskey.algorithm ∨ rrsig.keyTag ≠ dnskey.keyTag
    · simp [hor]
    rw [not_or, not_not, not_not] at hor
    exact absurd ⟨hflags, hor.1, hor.2⟩ hnames

end

end Hns
