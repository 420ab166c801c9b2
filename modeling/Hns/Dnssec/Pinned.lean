import Hns.Dnssec.Signed

/-!
# What signed data pins down

Signed data are a canonical form of what they are the data of: of the fields of
an RRSIG record, of its signer, and of an RRset up to the order of its records,
the letter case of names and the expansion of a wildcard (`SameSigned`). The data
are sorted and no two are alike, so a list of them is no more than their set
(`sortedRdatas_eq_iff`). What is said here is `signedData_eq_iff`, from which a
change of the order of records changes nothing (`signedData_canonical`).
-/

namespace Hns

/-! ## Sorted data -/

/-- Data that are sorted with no two alike next to each other increase. -/
theorem sortedRdatas_pairwise {rdatas : List (List UInt8)}
    (h : (sortedRdatas rdatas).IsChain (· ≠ ·)) : (sortedRdatas rdatas).Pairwise (· < ·) := by
  have hsorted : (sortedRdatas rdatas).Pairwise (· ≤ ·) := List.pairwise_insertionSort _ _
  rw [← List.isChain_iff_pairwise]
  generalize sortedRdatas rdatas = l at h hsorted ⊢
  induction l with
  | nil => exact .nil
  | cons a l ih =>
    cases l with
    | nil => exact List.isChain_singleton a
    | cons b l =>
      rw [List.isChain_cons_cons] at h ⊢
      obtain ⟨hne, h⟩ := h
      obtain ⟨hle, hsorted⟩ := List.pairwise_cons.1 hsorted
      exact ⟨Std.lt_of_le_of_ne (hle b List.mem_cons_self) hne, ih h hsorted⟩

/-- Sorted data, no two alike, are told by their set. -/
theorem sortedRdatas_eq_iff {rdatas rdatas' : List (List UInt8)}
    (h : (sortedRdatas rdatas).IsChain (· ≠ ·)) (h' : (sortedRdatas rdatas').IsChain (· ≠ ·)) :
    sortedRdatas rdatas = sortedRdatas rdatas' ↔ ∀ rdata, rdata ∈ rdatas ↔ rdata ∈ rdatas' := by
  have hmem (rdatas : List (List UInt8)) (rdata : List UInt8) :
      rdata ∈ sortedRdatas rdatas ↔ rdata ∈ rdatas := List.mem_insertionSort _
  constructor
  · intro heq rdata
    rw [← hmem rdatas, heq, hmem]
  · intro hiff
    refine (sortedRdatas_pairwise h).eq_of_mem_iff (sortedRdatas_pairwise h') fun rdata => ?_
    rw [hmem, hmem]
    exact hiff rdata

/-! ## RRSIG records -/

/-- The fields of two RRSIG records are the same, and so are their signers. -/
structure RrsigRecord.SameFields (rrsig rrsig' : RrsigRecord) : Prop where
  typeCovered : rrsig.typeCovered = rrsig'.typeCovered
  algorithm : rrsig.algorithm = rrsig'.algorithm
  labels : rrsig.labels = rrsig'.labels
  originalTtl : rrsig.originalTtl = rrsig'.originalTtl
  signatureExpiration : rrsig.signatureExpiration = rrsig'.signatureExpiration
  signatureInception : rrsig.signatureInception = rrsig'.signatureInception
  keyTag : rrsig.keyTag = rrsig'.keyTag
  signerName : rrsig.signerName = rrsig'.signerName

namespace RrsigRecord

/-- The times of an RRSIG record that has been read fit in their fields. -/
theorem times_lt_of_parseRdata {rdata : List UInt8} {rrsig : RrsigRecord}
    (h : parseRdata rdata = .ok rrsig) :
    rrsig.signatureExpiration < 2 ^ 32 ∧ rrsig.signatureInception < 2 ^ 32 := by
  unfold parseRdata at h
  split at h
  · obtain ⟨⟨signerName, signerEnd⟩, -, h⟩ := Except.bind_eq_ok.1 h
    obtain ⟨-, h⟩ := Except.throw_unless.1 h
    obtain ⟨signer, -, h⟩ := Except.bind_eq_ok.1 h
    cases h
    exact ⟨UInt32.toNat_lt _, UInt32.toNat_lt _⟩
  · cases h

/-- The fields are those that are signed. -/
theorem sameFields_iff {rdata rdata' : List UInt8} {rrsig rrsig' : RrsigRecord}
    (h : parseRdata rdata = .ok rrsig) (h' : parseRdata rdata' = .ok rrsig') :
    rrsig.SameFields rrsig' ↔ rrsig.fields = rrsig'.fields ∧
      rrsig.signerName = rrsig'.signerName := by
  constructor
  · intro hsame
    refine ⟨?_, hsame.signerName⟩
    rw [fields, fields, hsame.typeCovered, hsame.algorithm, hsame.labels, hsame.originalTtl,
      hsame.signatureExpiration, hsame.signatureInception, hsame.keyTag]
  · rintro ⟨hfields, hsigner⟩
    rw [fields, fields, SignatureFields.mk.injEq] at hfields
    obtain ⟨htype, halgorithm, hlabels, httl, hexpiration, hinception, htag⟩ := hfields
    have htime {n n' : ℕ} (hn : n < 2 ^ 32) (hn' : n' < 2 ^ 32)
        (heq : UInt32.ofNat n = UInt32.ofNat n') : n = n' := by
      have heq := congrArg UInt32.toNat heq
      rwa [UInt32.toNat_ofNat', UInt32.toNat_ofNat', Nat.mod_eq_of_lt hn,
        Nat.mod_eq_of_lt hn'] at heq
    obtain ⟨hlt, hlt'⟩ := times_lt_of_parseRdata h
    obtain ⟨hltOf, hltOf'⟩ := times_lt_of_parseRdata h'
    have hknown := (wellRead_of_parseRdata h).isKnown
    exact ⟨hknown.code_inj (wellRead_of_parseRdata h').isKnown htype, halgorithm, hlabels, httl,
      htime hlt hltOf hexpiration, htime hlt' hltOf' hinception, htag, hsigner⟩

end RrsigRecord

/-! ## Signed data -/

/-- The data of the records in canonical form. -/
def canonicalRdatas (rrset : List ResourceRecord) : Set (List UInt8) :=
  {rdata | ∃ record ∈ rrset, canonicalRdata record = .ok rdata}

/-- The same is signed of two RRsets under two RRSIG records. -/
structure SameSigned (rrset : List ResourceRecord) (rrsig : RrsigRecord)
    (rrset' : List ResourceRecord) (rrsig' : RrsigRecord) : Prop where
  fields : rrsig.SameFields rrsig'
  recordType : ∀ record ∈ rrset, ∀ record' ∈ rrset', record.recordType = record'.recordType
  class_ : ∀ record ∈ rrset, ∀ record' ∈ rrset', record.class_ = record'.class_
  owner : ∀ record ∈ rrset, ∀ record' ∈ rrset',
    canonicalOwner record.name rrsig.labels = canonicalOwner record'.name rrsig'.labels
  rdatas : canonicalRdatas rrset = canonicalRdatas rrset'

section

variable {rrset rrset' : List ResourceRecord} {rrsig rrsig' : RrsigRecord} {now now' : DnssecTime}
  {data data' : List UInt8}

/-- What is signed of an RRset, for all of its records. -/
structure Signing (rrset : List ResourceRecord) (rrsig : RrsigRecord) (owner : List DnsLabel)
    (class_ : UInt16) (rdatas : List (List UInt8)) : Prop where
  recordType : ∀ record ∈ rrset, record.recordType = rrsig.typeCovered
  class_ : ∀ record ∈ rrset, record.class_ = class_
  owner : ∀ record ∈ rrset,
    canonicalOwner record.name rrsig.labels = .ok (DnsName.wire owner)
  mem_rdatas : ∀ rdata, rdata ∈ rdatas ↔ rdata ∈ canonicalRdatas rrset
  length_le : ∀ rdata ∈ sortedRdatas rdatas, rdata.length ≤ 65535
  ne_nil : sortedRdatas rdatas ≠ []
  distinct : (sortedRdatas rdatas).IsChain (· ≠ ·)

theorem exists_signing (hread : rrsig.WellRead) (h : signedData rrset rrsig now = .ok data) :
    ∃ owner class_ rdatas, Signing rrset rrsig owner class_ rdatas ∧
      data = message rrsig.fields rrsig.signerName owner class_ (sortedRdatas rdatas) := by
  cases rrset with
  | nil =>
    rw [signedData] at h
    obtain ⟨-, h⟩ := Except.throw_unless.1 h
    cases h
  | cons first rest =>
    obtain ⟨-, htype, rdatas, hrdatas, hdistinct, rfl⟩ := (signedData_eq_ok hread).1 h
    have hmem (rdata : List UInt8) : rdata ∈ sortedRdatas rdatas ↔ rdata ∈ rdatas :=
      List.mem_insertionSort _
    refine ⟨_, _, rdatas, ⟨?_, ?_, ?_, ?_, ?_, ?_, hdistinct⟩, rfl⟩
    · intro record hrecord
      obtain ⟨_, -, has⟩ := hrdatas.exists_right record hrecord
      exact has.recordType.trans htype
    · intro record hrecord
      obtain ⟨_, -, has⟩ := hrdatas.exists_right record hrecord
      exact has.class_
    · intro record hrecord
      obtain ⟨_, -, has⟩ := hrdatas.exists_right record hrecord
      refine canonicalOwner_eq_ok.2 ⟨has.count_le, ?_⟩
      rw [has.owner]
    · intro rdata
      constructor
      · intro hrdata
        obtain ⟨record, hrecord, has⟩ := hrdatas.exists_left rdata hrdata
        exact ⟨record, hrecord, has.canonical⟩
      · rintro ⟨record, hrecord, hcanonical⟩
        obtain ⟨rdata', hrdata', has⟩ := hrdatas.exists_right record hrecord
        obtain rfl : rdata = rdata' := Except.ok.inj (hcanonical.symm.trans has.canonical)
        exact hrdata'
    · intro rdata hrdata
      obtain ⟨_, -, has⟩ := hrdatas.exists_left rdata ((hmem rdata).1 hrdata)
      exact has.length_le
    · rcases hrdatas with _ | ⟨-, -⟩
      rw [← List.length_pos_iff, sortedRdatas, List.length_insertionSort]
      exact Nat.succ_pos _

/-- Signed data are the same when the same is signed. -/
theorem signedData_eq_iff {rdata rdata' : List UInt8}
    (hrrsig : RrsigRecord.parseRdata rdata = .ok rrsig)
    (hrrsig' : RrsigRecord.parseRdata rdata' = .ok rrsig')
    (h : signedData rrset rrsig now = .ok data) (h' : signedData rrset' rrsig' now' = .ok data') :
    data = data' ↔ SameSigned rrset rrsig rrset' rrsig' := by
  obtain ⟨owner, class_, rdatas, hsigning, rfl⟩ :=
    exists_signing (RrsigRecord.wellRead_of_parseRdata hrrsig) h
  obtain ⟨owner', class_', rdatas', hsigning', rfl⟩ :=
    exists_signing (RrsigRecord.wellRead_of_parseRdata hrrsig') h'
  have hrdatas : sortedRdatas rdatas = sortedRdatas rdatas' ↔
      canonicalRdatas rrset = canonicalRdatas rrset' := by
    rw [sortedRdatas_eq_iff hsigning.distinct hsigning'.distinct, Set.ext_iff]
    simp only [hsigning.mem_rdatas, hsigning'.mem_rdatas]
  constructor
  · intro heq
    obtain ⟨hfields, hsigner, rfl, rfl, hsorted⟩ :=
      message_inj hsigning.length_le hsigning'.length_le hsigning.ne_nil heq
    have hsame := (RrsigRecord.sameFields_iff hrrsig hrrsig').2 ⟨hfields, hsigner⟩
    refine ⟨hsame, ?_, ?_, ?_, hrdatas.1 hsorted⟩
    · intro record hrecord record' hrecord'
      rw [hsigning.recordType record hrecord, hsigning'.recordType record' hrecord',
        hsame.typeCovered]
    · intro record hrecord record' hrecord'
      rw [hsigning.class_ record hrecord, hsigning'.class_ record' hrecord']
    · intro record hrecord record' hrecord'
      rw [hsigning.owner record hrecord, hsigning'.owner record' hrecord']
  · intro hsame
    obtain ⟨hfields, hsigner⟩ := (RrsigRecord.sameFields_iff hrrsig hrrsig').1 hsame.fields
    -- Some record of each RRset has the class and the owner that are signed.
    obtain ⟨rdata, hrdata⟩ := List.exists_mem_of_ne_nil _ hsigning.ne_nil
    obtain ⟨record, hrecord, -⟩ :=
      (hsigning.mem_rdatas rdata).1 ((List.mem_insertionSort _).1 hrdata)
    obtain ⟨rdata', hrdata'⟩ := List.exists_mem_of_ne_nil _ hsigning'.ne_nil
    obtain ⟨record', hrecord', -⟩ :=
      (hsigning'.mem_rdatas rdata').1 ((List.mem_insertionSort _).1 hrdata')
    have hclass : class_ = class_' := by
      rw [← hsigning.class_ record hrecord, ← hsigning'.class_ record' hrecord']
      exact hsame.class_ record hrecord record' hrecord'
    have howner : owner = owner' := by
      have heq := hsame.owner record hrecord record' hrecord'
      rw [hsigning.owner record hrecord, hsigning'.owner record' hrecord'] at heq
      exact DnsName.selfDelimiting_wire.injective (Except.ok.inj heq)
    rw [hfields, hsigner, hclass, howner, hrdatas.2 hsame.rdatas]

/-- The same is signed of the records in another order. -/
theorem sameSigned_of_perm (hread : rrsig.WellRead) (h : signedData rrset rrsig now = .ok data)
    (hperm : rrset.Perm rrset') : SameSigned rrset rrsig rrset' rrsig := by
  obtain ⟨owner, class_, rdatas, hsigning, -⟩ := exists_signing hread h
  refine ⟨⟨rfl, rfl, rfl, rfl, rfl, rfl, rfl, rfl⟩, ?_, ?_, ?_, ?_⟩
  · intro record hrecord record' hrecord'
    rw [hsigning.recordType record hrecord,
      hsigning.recordType record' (hperm.mem_iff.2 hrecord')]
  · intro record hrecord record' hrecord'
    rw [hsigning.class_ record hrecord, hsigning.class_ record' (hperm.mem_iff.2 hrecord')]
  · intro record hrecord record' hrecord'
    rw [hsigning.owner record hrecord, hsigning.owner record' (hperm.mem_iff.2 hrecord')]
  · simp only [canonicalRdatas, hperm.mem_iff]

/-- **Signed data are canonical**: they do not depend on the order of the records, and they are
    the same just when the same is signed. -/
theorem signedData_canonical {rdata rdata' : List UInt8}
    (hrrsig : RrsigRecord.parseRdata rdata = .ok rrsig)
    (hrrsig' : RrsigRecord.parseRdata rdata' = .ok rrsig')
    (h : signedData rrset rrsig now = .ok data) (h' : signedData rrset' rrsig' now' = .ok data') :
    (rrsig = rrsig' → rrset.Perm rrset' → data = data') ∧
      (data = data' ↔ SameSigned rrset rrsig rrset' rrsig') := by
  have hiff := signedData_eq_iff hrrsig hrrsig' h h'
  refine ⟨?_, hiff⟩
  rintro rfl hperm
  exact hiff.2 (sameSigned_of_perm (RrsigRecord.wellRead_of_parseRdata hrrsig) h hperm)

end

namespace PinnedSample

/-- An RRSIG record that covers addresses, of the root. -/
def rrsigRdata : List UInt8 := [0, 1, 13, 0, 0, 0, 1, 44, 0, 0, 0, 9, 0, 0, 0, 1, 0, 7, 0, 0xab]

def rrsig : RrsigRecord where
  typeCovered := .a
  algorithm := 13
  labels := 0
  originalTtl := 300
  signatureExpiration := 9
  signatureInception := 1
  keyTag := 7
  signerName := .root
  signature := [0xab]
  signedRdata := [0, 1, 13, 0, 0, 0, 1, 44, 0, 0, 0, 9, 0, 0, 0, 1, 0, 7, 0]

/-- An address of the root. -/
def address (last : UInt8) : ResourceRecord := ⟨.root, .a, 1, 60, [192, 0, 2, last]⟩

def data : List UInt8 :=
  rrsig.signedRdata ++ [0, 0, 1, 0, 1, 0, 0, 1, 44, 0, 4, 192, 0, 2, 1] ++
    [0, 0, 1, 0, 1, 0, 0, 1, 44, 0, 4, 192, 0, 2, 2]

theorem sameSigned_swap :
    SameSigned [address 1, address 2] rrsig [address 2, address 1] rrsig :=
  (@signedData_canonical [address 1, address 2] [address 2, address 1] rrsig rrsig 5 6 data data
    rrsigRdata rrsigRdata (by decide +kernel) (by decide +kernel) (by decide +kernel)
    (by decide +kernel)).2.1 rfl

end PinnedSample

end Hns
