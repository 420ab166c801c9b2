import Hns.Lib.Reorder
import Hns.Dane.Policy

/-!
# The order of records and certificates

Whether the policy accepts a chain (`Accepted`) is a search over the TLSA records,
and for a trust anchor over the intermediates (`exists_matched_iff`), in which an
intermediate that is not well-formed DER is met only if nothing was found before
it. So the order in which they are presented matters just where something can be
found and a record of a trust anchor compares the key of such an intermediate
(`accepted_orderFree_iff`).
-/

namespace Hns

namespace DaneCertificateChainValidationInput

section

variable [Sha2] (input : DaneCertificateChainValidationInput)

def Accepted : Prop :=
  ∃ usage, evaluatePolicyWithCertificateChain input = .ok (.matched usage)

/-- The input with its records and its intermediates in another order. -/
def reordered (tlsaRecords : List TlsaRecord) (intermediateDer : List (List UInt8)) :
    DaneCertificateChainValidationInput :=
  { input with tlsaRecords := tlsaRecords, intermediateDer := intermediateDer }

/-- Whether the input is accepted is said by the records and the intermediates in any order. -/
def OrderFree : Prop :=
  ∀ tlsaRecords intermediateDer, tlsaRecords.Perm input.tlsaRecords →
    intermediateDer.Perm input.intermediateDer →
      ((input.reordered tlsaRecords intermediateDer).Accepted ↔ input.Accepted)

/-- A record that the chain satisfies, with some intermediate if it is one of a trust anchor. -/
def SatisfiedBy (spkiDer : List UInt8) (record : TlsaRecord) : Prop :=
  (record.isPkixUsage → input.webpkiStatus = .valid) ∧
    (record.isEeUsage ∧ record.matchesDer input.endEntityDer spkiDer ∨
      ¬record.isEeUsage ∧
        ∃ cert ∈ input.intermediateDer, recordMatchesCertificate record cert = .ok true)

/-- Something can be accepted: the records are DNSSEC-secure, the end entity has a key if it is
    compared, and a record is satisfied. -/
def Acceptable : Prop :=
  input.dnssecSecure ∧ ∃ spkiDer, endEntitySpki input = .ok spkiDer ∧
    ∃ record ∈ input.tlsaRecords, input.SatisfiedBy spkiDer record

/-- A record of a trust anchor compares keys, and an intermediate has none that can be found. -/
def MeetsMalformed : Prop :=
  (∃ record ∈ input.tlsaRecords, ¬record.isEeUsage ∧ record.selector = .subjectPublicKeyInfo) ∧
    ∃ cert ∈ input.intermediateDer, ∃ fault, extractSpkiDer cert = .error fault

end

end DaneCertificateChainValidationInput

section

variable [Sha2]

/-! ## The search -/

/-- Whether the loop accepts a record. -/
def judgeRecord (chain : CertificateChainInput) (webpkiStatus : WebPkiStatus)
    (record : TlsaRecord) : DaneResult Bool := do
  let isMatch ← recordMatchesChain record chain
  return isMatch && !(record.isPkixUsage ∧ webpkiStatus ≠ .valid)

theorem judgeRecord_eq_true {chain : CertificateChainInput} {webpkiStatus : WebPkiStatus}
    {record : TlsaRecord} :
    judgeRecord chain webpkiStatus record = .ok true ↔
      recordMatchesChain record chain = .ok true ∧ (record.isPkixUsage → webpkiStatus = .valid) := by
  rw [judgeRecord]
  rcases recordMatchesChain record chain with e | isMatch
  · simp
  · cases record.isPkixUsage <;> simp [pure, Except.pure]

theorem judgeRecord_eq_error {chain : CertificateChainInput} {webpkiStatus : WebPkiStatus}
    {record : TlsaRecord} {fault : Fault DaneError} :
    judgeRecord chain webpkiStatus record = .error fault ↔
      recordMatchesChain record chain = .error fault := by
  rw [judgeRecord]
  rcases recordMatchesChain record chain with e | isMatch
  · simp
  · simp [pure, Except.pure]

/-- The loop searches for a record that is accepted. -/
theorem exists_matched_iff {chain : CertificateChainInput} {webpkiStatus : WebPkiStatus}
    {records : List TlsaRecord} {rejected : Bool} :
    (∃ usage, evaluateTlsaLoop chain webpkiStatus records rejected = .ok (.matched usage)) ↔
      records.anyM (judgeRecord chain webpkiStatus) = .ok true := by
  induction records generalizing rejected with
  | nil =>
    rw [evaluateTlsaLoop]
    cases rejected <;> simp [List.anyM, pure, Except.pure]
  | cons record records ih =>
    rw [evaluateTlsaLoop, List.anyM, judgeRecord]
    rcases recordMatchesChain record chain with e | _ | _
    · simp
    · exact ih
    · by_cases hpkix : record.isPkixUsage ∧ webpkiStatus ≠ .valid
      · simpa [hpkix, pure, Except.pure] using ih
      · simp [hpkix, pure, Except.pure]

theorem recordMatchesChain_of_ee {record : TlsaRecord} {chain : CertificateChainInput}
    (h : record.isEeUsage) :
    recordMatchesChain record chain =
      .ok (record.matchesDer chain.endEntityDer chain.endEntitySpkiDer) := by
  rw [recordMatchesChain]
  revert h
  rcases husage : record.usage <;> simp [TlsaRecord.isEeUsage, husage]

theorem recordMatchesChain_of_ta {record : TlsaRecord} {chain : CertificateChainInput}
    (h : ¬record.isEeUsage) :
    recordMatchesChain record chain =
      chain.intermediateDer.anyM (recordMatchesCertificate record) := by
  rw [recordMatchesChain]
  revert h
  rcases husage : record.usage <;> simp [TlsaRecord.isEeUsage, husage]

theorem recordMatchesCertificate_eq_error {record : TlsaRecord} {certDer : List UInt8}
    {fault : Fault DaneError} :
    recordMatchesCertificate record certDer = .error fault ↔
      record.selector = .subjectPublicKeyInfo ∧ extractSpkiDer certDer = .error fault := by
  rw [recordMatchesCertificate]
  cases record.selector with
  | fullCertificate => simp
  | subjectPublicKeyInfo =>
    rcases extractSpkiDer certDer with e | spkiDer
    · simp
    · simp [pure, Except.pure]

/-! ## The policy -/

variable {input : DaneCertificateChainValidationInput}

/-- The policy accepts what the search finds, with the key of the end entity if it is compared. -/
theorem accepted_iff : input.Accepted ↔ input.dnssecSecure ∧ ∃ spkiDer,
    endEntitySpki input = .ok spkiDer ∧ input.tlsaRecords.anyM (judgeRecord
      ⟨input.endEntityDer, spkiDer, input.intermediateDer⟩ input.webpkiStatus) = .ok true := by
  rw [DaneCertificateChainValidationInput.Accepted, evaluatePolicyWithCertificateChain]
  rcases endEntitySpki input with e | spkiDer
  · simp
  simp only [Except.ok_bind, Except.ok.injEq, exists_eq_left']
  by_cases hnil : input.tlsaRecords = []
  · simp [hnil, evaluateNoTlsaPolicy_ne_matched, pure, Except.pure]
  rw [if_pos hnil]
  cases input.dnssecSecure with
  | false => simp
  | true => simpa [evaluateTlsaForChain] using exists_matched_iff

omit [Sha2] in
/-- The key of the end entity is compared in any order. -/
theorem endEntitySpki_reordered {tlsaRecords : List TlsaRecord} {intermediateDer : List (List UInt8)}
    (hrecords : tlsaRecords.Perm input.tlsaRecords) :
    endEntitySpki (input.reordered tlsaRecords intermediateDer) = endEntitySpki input := by
  rw [endEntitySpki, endEntitySpki, DaneCertificateChainValidationInput.reordered, hrecords.any_eq]

/-- A record that is accepted is satisfied. -/
theorem satisfiedBy_of_judgeRecord {spkiDer : List UInt8} {record : TlsaRecord}
    {intermediateDer : List (List UInt8)} (hperm : intermediateDer.Perm input.intermediateDer)
    (h : judgeRecord ⟨input.endEntityDer, spkiDer, intermediateDer⟩ input.webpkiStatus record =
      .ok true) :
    input.SatisfiedBy spkiDer record := by
  obtain ⟨hmatch, hpkix⟩ := judgeRecord_eq_true.1 h
  refine ⟨hpkix, ?_⟩
  by_cases hee : record.isEeUsage
  · rw [recordMatchesChain_of_ee hee] at hmatch
    exact .inl ⟨hee, Except.ok.inj hmatch⟩
  · rw [recordMatchesChain_of_ta hee] at hmatch
    obtain ⟨cert, hcert, hmatch⟩ := Except.exists_of_anyM hmatch
    exact .inr ⟨hee, cert, hperm.subset hcert, hmatch⟩

/-- Where no malformed intermediate can be met, a record that is satisfied is accepted. -/
theorem judgeRecord_of_not_meetsMalformed {spkiDer : List UInt8} {record : TlsaRecord}
    {intermediateDer : List (List UInt8)} (hperm : intermediateDer.Perm input.intermediateDer)
    (hnot : ¬input.MeetsMalformed) (hrecord : record ∈ input.tlsaRecords) :
    (∃ found, judgeRecord ⟨input.endEntityDer, spkiDer, intermediateDer⟩ input.webpkiStatus record =
        .ok found) ∧
      (input.SatisfiedBy spkiDer record →
        judgeRecord ⟨input.endEntityDer, spkiDer, intermediateDer⟩ input.webpkiStatus record =
          .ok true) := by
  have hcert : ¬record.isEeUsage → ∀ cert ∈ intermediateDer,
      ∃ found, recordMatchesCertificate record cert = .ok found := by
    intro hta cert hcert
    rcases h : recordMatchesCertificate record cert with fault | found
    · obtain ⟨hselector, hfault⟩ := recordMatchesCertificate_eq_error.1 h
      exact absurd ⟨⟨record, hrecord, hta, hselector⟩, cert, hperm.subset hcert, fault, hfault⟩ hnot
    · exact ⟨found, rfl⟩
  constructor
  · rcases h : judgeRecord ⟨input.endEntityDer, spkiDer, intermediateDer⟩ input.webpkiStatus record
      with fault | found
    · rw [judgeRecord_eq_error] at h
      by_cases hee : record.isEeUsage
      · rw [recordMatchesChain_of_ee hee] at h
        cases h
      · rw [recordMatchesChain_of_ta hee] at h
        obtain ⟨cert, hmem, herror⟩ := Except.exists_error_of_anyM h
        obtain ⟨found, hfound⟩ := hcert hee cert hmem
        rw [herror] at hfound
        cases hfound
    · exact ⟨found, rfl⟩
  · rintro ⟨hpkix, ⟨hee, hmatch⟩ | ⟨hta, cert, hmem, hmatch⟩⟩
    · refine judgeRecord_eq_true.2 ⟨?_, hpkix⟩
      rw [recordMatchesChain_of_ee hee]
      exact congrArg Except.ok hmatch
    · refine judgeRecord_eq_true.2 ⟨?_, hpkix⟩
      rw [recordMatchesChain_of_ta hta]
      exact Except.anyM_of_exists (hcert hta) ⟨cert, hperm.symm.subset hmem, hmatch⟩

section Reordered

variable {tlsaRecords : List TlsaRecord} {intermediateDer : List (List UInt8)}

theorem acceptable_of_accepted (hrecords : tlsaRecords.Perm input.tlsaRecords)
    (hcerts : intermediateDer.Perm input.intermediateDer)
    (h : (input.reordered tlsaRecords intermediateDer).Accepted) : input.Acceptable := by
  obtain ⟨hsecure, spkiDer, hspki, hsearch⟩ := accepted_iff.1 h
  rw [endEntitySpki_reordered hrecords] at hspki
  obtain ⟨record, hmem, hjudge⟩ := Except.exists_of_anyM hsearch
  exact ⟨hsecure, spkiDer, hspki, record, hrecords.subset hmem,
    satisfiedBy_of_judgeRecord hcerts hjudge⟩

theorem accepted_of_acceptable (hrecords : tlsaRecords.Perm input.tlsaRecords)
    (hcerts : intermediateDer.Perm input.intermediateDer) (hnot : ¬input.MeetsMalformed)
    (h : input.Acceptable) : (input.reordered tlsaRecords intermediateDer).Accepted := by
  obtain ⟨hsecure, spkiDer, hspki, record, hmem, hsatisfied⟩ := h
  refine accepted_iff.2 ⟨hsecure, spkiDer, (endEntitySpki_reordered hrecords).trans hspki, ?_⟩
  refine Except.anyM_of_exists (fun r hr => ?_) ⟨record, hrecords.symm.subset hmem, ?_⟩
  · exact (judgeRecord_of_not_meetsMalformed hcerts hnot (hrecords.subset hr)).1
  · exact (judgeRecord_of_not_meetsMalformed hcerts hnot hmem).2 hsatisfied

/-- A record that is satisfied is accepted when it and its intermediate come first. -/
theorem exists_accepted_of_acceptable (h : input.Acceptable) :
    ∃ tlsaRecords intermediateDer, tlsaRecords.Perm input.tlsaRecords ∧
      intermediateDer.Perm input.intermediateDer ∧
      (input.reordered tlsaRecords intermediateDer).Accepted := by
  obtain ⟨hsecure, spkiDer, hspki, record, hmem, hpkix, hsatisfied⟩ := h
  obtain ⟨records, hrecords⟩ := List.exists_perm_cons hmem
  have haccepted {intermediateDer : List (List UInt8)}
      (hmatch : recordMatchesChain record ⟨input.endEntityDer, spkiDer, intermediateDer⟩ =
        .ok true) :
      (input.reordered (record :: records) intermediateDer).Accepted :=
    accepted_iff.2 ⟨hsecure, spkiDer, (endEntitySpki_reordered hrecords).trans hspki,
      Except.anyM_cons_of_true (judgeRecord_eq_true.2 ⟨hmatch, hpkix⟩)⟩
  rcases hsatisfied with ⟨hee, hmatch⟩ | ⟨hta, cert, hcert, hmatch⟩
  · refine ⟨_, _, hrecords, .refl _, haccepted ?_⟩
    rw [recordMatchesChain_of_ee hee]
    exact congrArg Except.ok hmatch
  · obtain ⟨certs, hcerts⟩ := List.exists_perm_cons hcert
    refine ⟨_, _, hrecords, hcerts, haccepted ?_⟩
    rw [recordMatchesChain_of_ta hta]
    exact Except.anyM_cons_of_true hmatch

/-- Nothing is accepted when a record that compares keys and a malformed intermediate come first. -/
theorem exists_not_accepted (h : input.MeetsMalformed) :
    ∃ tlsaRecords intermediateDer, tlsaRecords.Perm input.tlsaRecords ∧
      intermediateDer.Perm input.intermediateDer ∧
      ¬(input.reordered tlsaRecords intermediateDer).Accepted := by
  obtain ⟨⟨record, hmem, hta, hselector⟩, cert, hcert, fault, hfault⟩ := h
  obtain ⟨records, hrecords⟩ := List.exists_perm_cons hmem
  obtain ⟨certs, hcerts⟩ := List.exists_perm_cons hcert
  refine ⟨_, _, hrecords, hcerts, fun haccepted => ?_⟩
  obtain ⟨-, spkiDer, -, hsearch⟩ := accepted_iff.1 haccepted
  have hjudge : judgeRecord ⟨input.endEntityDer, spkiDer, cert :: certs⟩ input.webpkiStatus record =
      .error fault := by
    rw [judgeRecord_eq_error, recordMatchesChain_of_ta hta]
    exact Except.anyM_cons_of_error (recordMatchesCertificate_eq_error.2 ⟨hselector, hfault⟩)
  cases hsearch.symm.trans (Except.anyM_cons_of_error hjudge)

end Reordered

/-- Acceptance does not depend on the order just if nothing can be accepted, or if no record of a
    trust anchor compares the key of an intermediate that is malformed. -/
theorem accepted_orderFree_iff (input : DaneCertificateChainValidationInput) :
    input.OrderFree ↔ ¬(input.Acceptable ∧ input.MeetsMalformed) := by
  have hself : input.reordered input.tlsaRecords input.intermediateDer = input := rfl
  constructor
  · rintro hfree ⟨hacceptable, hmeets⟩
    obtain ⟨records, certs, hrecords, hcerts, haccepted⟩ :=
      exists_accepted_of_acceptable hacceptable
    obtain ⟨records', certs', hrecords', hcerts', hnot⟩ := exists_not_accepted hmeets
    have hinput := (hfree records certs hrecords hcerts).1 haccepted
    exact hnot ((hfree records' certs' hrecords' hcerts').2 hinput)
  · intro hnot records certs hrecords hcerts
    constructor
    · intro haccepted
      have hacceptable := acceptable_of_accepted hrecords hcerts haccepted
      rw [← hself]
      exact accepted_of_acceptable (.refl _) (.refl _) (fun h => hnot ⟨hacceptable, h⟩) hacceptable
    · intro haccepted
      rw [← hself] at haccepted
      have hacceptable := acceptable_of_accepted (.refl _) (.refl _) haccepted
      exact accepted_of_acceptable hrecords hcerts (fun h => hnot ⟨hacceptable, h⟩) hacceptable

end

/-! ## An intermediate that is no certificate -/

namespace PresentedSample

scoped instance : Sha2 := ⟨fun _ => .zero, fun _ => .zero, fun _ => .zero⟩

/-- The record of the end entity that is presented. -/
def endEntity : TlsaRecord := ⟨.daneEe, .fullCertificate, .exact, [0x30, 0]⟩

/-- A record of the key of a trust anchor. -/
def trustAnchor : TlsaRecord := ⟨.daneTa, .subjectPublicKeyInfo, .exact, [0x30, 0]⟩

def input (tlsaRecords : List TlsaRecord) : DaneCertificateChainValidationInput :=
  ⟨.hnsStrict, true, tlsaRecords, [0x30, 0], [[]], .notEvaluated⟩

/-- The empty intermediate is no matter behind the record of the end entity, but before it. -/
theorem not_accepted_orderFree :
    [trustAnchor, endEntity].Perm [endEntity, trustAnchor] ∧
      evaluatePolicyWithCertificateChain (input [endEntity, trustAnchor]) =
        .ok (.matched .daneEe) ∧
      evaluatePolicyWithCertificateChain (input [trustAnchor, endEntity]) =
        .error (.failed .malformedCertificate) ∧
      ¬(input [endEntity, trustAnchor]).OrderFree := by
  have hmatched : evaluatePolicyWithCertificateChain (input [endEntity, trustAnchor]) =
      .ok (.matched .daneEe) := by decide +kernel
  have herror : evaluatePolicyWithCertificateChain (input [trustAnchor, endEntity]) =
      .error (.failed .malformedCertificate) := by decide +kernel
  refine ⟨.swap _ _ _, hmatched, herror, fun hfree => ?_⟩
  obtain ⟨usage, hagain⟩ := (hfree [trustAnchor, endEntity] [[]] (.swap _ _ _) (.refl _)).2
    ⟨_, hmatched⟩
  cases herror.symm.trans hagain

end PresentedSample

end Hns
