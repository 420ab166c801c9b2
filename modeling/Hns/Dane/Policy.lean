import Hns.Core.Hash
import Hns.Dane.Der

/-!
# The TLSA policy

The TLSA records of `hns-dane` and how they judge the certificates a server has
presented (`evaluatePolicyWithCertificateChain`). A record of an end-entity
usage is compared with the end entity, a record of a trust-anchor usage with
the intermediates, in the order they are presented: what is compared is the
certificate or its key, or a digest, with the association data of the record.
-/

namespace Hns

inductive TlsaUsage
  | pkixTa
  | pkixEe
  | daneTa
  | daneEe
  deriving DecidableEq

inductive TlsaSelector
  | fullCertificate
  | subjectPublicKeyInfo
  deriving DecidableEq

inductive TlsaMatching
  | exact
  | sha256
  | sha512
  deriving DecidableEq

structure TlsaRecord where
  usage : TlsaUsage
  selector : TlsaSelector
  matching : TlsaMatching
  associationData : List UInt8
  deriving DecidableEq

inductive DomainTrustMode
  | hnsStrict
  | hnsCompatibility
  | icannWebPki
  deriving DecidableEq

inductive WebPkiStatus
  | valid
  | invalid
  | notEvaluated
  deriving DecidableEq

structure DaneCertificateChainValidationInput where
  mode : DomainTrustMode
  dnssecSecure : Bool
  tlsaRecords : List TlsaRecord
  endEntityDer : List UInt8
  intermediateDer : List (List UInt8)
  webpkiStatus : WebPkiStatus
  deriving DecidableEq

inductive DaneDecision
  | noTlsa
  | matched (usage : TlsaUsage)
  | webPkiFallback
  | failed
  deriving DecidableEq

/-! ## Records -/

namespace TlsaRecord

def parseRdata (rdata : List UInt8) : Except DaneError TlsaRecord :=
  match rdata with
  | usage :: selector :: matching :: associationData => do
    let usage ← match usage with
      | 0 => .ok .pkixTa
      | 1 => .ok .pkixEe
      | 2 => .ok .daneTa
      | 3 => .ok .daneEe
      | _ => .error .unsupportedUsage
    let selector ← match selector with
      | 0 => .ok .fullCertificate
      | 1 => .ok .subjectPublicKeyInfo
      | _ => .error .unsupportedSelector
    let matching ← match matching with
      | 0 => .ok .exact
      | 1 => .ok .sha256
      | 2 => .ok .sha512
      | _ => .error .unsupportedMatching
    return ⟨usage, selector, matching, associationData⟩
  | _ => .error .shortRecord

def isEeUsage (record : TlsaRecord) : Bool := record.usage = .pkixEe ∨ record.usage = .daneEe

def isPkixUsage (record : TlsaRecord) : Bool := record.usage = .pkixTa ∨ record.usage = .pkixEe

variable [Sha2]

def matchesDer (record : TlsaRecord) (certDer spkiDer : List UInt8) : Bool :=
  let selected := match record.selector with
    | .fullCertificate => certDer
    | .subjectPublicKeyInfo => spkiDer
  match record.matching with
  | .exact => selected = record.associationData
  | .sha256 => (Sha2.sha256 selected).bytes = record.associationData
  | .sha512 => (Sha2.sha512 selected).bytes = record.associationData

end TlsaRecord

/-! ## The policy -/

structure CertificateChainInput where
  endEntityDer : List UInt8
  endEntitySpkiDer : List UInt8
  intermediateDer : List (List UInt8)

section Policy

variable [Sha2]

def recordMatchesCertificate (record : TlsaRecord) (certDer : List UInt8) : DaneResult Bool :=
  match record.selector with
  | .fullCertificate => .ok (record.matchesDer certDer [])
  | .subjectPublicKeyInfo => do
    let spkiDer ← extractSpkiDer certDer
    return record.matchesDer certDer spkiDer

def recordMatchesChain (record : TlsaRecord) (chain : CertificateChainInput) : DaneResult Bool :=
  match record.usage with
  | .pkixEe | .daneEe => .ok (record.matchesDer chain.endEntityDer chain.endEntitySpkiDer)
  | .pkixTa | .daneTa => chain.intermediateDer.anyM (recordMatchesCertificate record)

/-- The loop of `evaluate_tlsa_for_chain`; the flag says that a match was rejected by WebPKI. -/
def evaluateTlsaLoop (chain : CertificateChainInput) (webpkiStatus : WebPkiStatus) :
    List TlsaRecord → Bool → DaneResult DaneDecision
  | [], pkixMatchRejectedByWebpki =>
    if pkixMatchRejectedByWebpki then .error (.failed .webPkiFailed) else .ok .failed
  | record :: records, pkixMatchRejectedByWebpki => do
    if !(← recordMatchesChain record chain) then
      evaluateTlsaLoop chain webpkiStatus records pkixMatchRejectedByWebpki
    else if record.isPkixUsage ∧ webpkiStatus ≠ .valid then
      evaluateTlsaLoop chain webpkiStatus records true
    else return .matched record.usage

def evaluateTlsaForChain (records : List TlsaRecord) (chain : CertificateChainInput)
    (webpkiStatus : WebPkiStatus) : DaneResult DaneDecision :=
  evaluateTlsaLoop chain webpkiStatus records false

def evaluateNoTlsaPolicy (mode : DomainTrustMode) (webpkiStatus : WebPkiStatus) :
    DaneResult DaneDecision :=
  match mode with
  | .hnsStrict => .error (.failed .missingRequiredTlsa)
  | .hnsCompatibility | .icannWebPki =>
    match webpkiStatus with
    | .valid => .ok .webPkiFallback
    | .invalid => .error (.failed .webPkiFailed)
    | .notEvaluated => .ok .noTlsa

/-- The key of the end entity, extracted only for a record that compares it. -/
def endEntitySpki (input : DaneCertificateChainValidationInput) : DaneResult (List UInt8) :=
  if input.tlsaRecords.any fun record =>
      record.selector = .subjectPublicKeyInfo ∧ record.isEeUsage then
    extractSpkiDer input.endEntityDer
  else .ok []

def evaluatePolicyWithCertificateChain (input : DaneCertificateChainValidationInput) :
    DaneResult DaneDecision := do
  let spkiDer ← endEntitySpki input
  if input.tlsaRecords ≠ [] then
    if !input.dnssecSecure then .error (.failed .insecureTlsa)
    else
      evaluateTlsaForChain input.tlsaRecords
        ⟨input.endEntityDer, spkiDer, input.intermediateDer⟩ input.webpkiStatus
  else evaluateNoTlsaPolicy input.mode input.webpkiStatus

/-! ## What a match says -/

/-- A record of a trust-anchor usage matches a chain when it matches an intermediate before which
    none is malformed or matches. -/
theorem recordMatchesChain_eq_true {record : TlsaRecord} {chain : CertificateChainInput}
    (hta : record.isEeUsage = false) :
    recordMatchesChain record chain = .ok true ↔
      ∃ k anchor, chain.intermediateDer[k]? = some anchor ∧
        recordMatchesCertificate record anchor = .ok true ∧
        ∀ cert ∈ chain.intermediateDer.take k, recordMatchesCertificate record cert = .ok false := by
  rw [← Except.anyM_eq_ok_true, recordMatchesChain]
  revert hta
  rcases h : record.usage <;> simp [TlsaRecord.isEeUsage, h]

/-- The loop decides for the first record that matches and, of a PKIX usage, is not rejected. -/
theorem evaluateTlsaLoop_eq_matched {chain : CertificateChainInput} {webpkiStatus : WebPkiStatus}
    {usage : TlsaUsage} {records : List TlsaRecord} {rejected : Bool}
    (h : evaluateTlsaLoop chain webpkiStatus records rejected = .ok (.matched usage)) :
    ∃ record ∈ records, record.usage = usage ∧ recordMatchesChain record chain = .ok true ∧
      (record.isPkixUsage → webpkiStatus = .valid) := by
  induction records generalizing rejected with
  | nil =>
    rw [evaluateTlsaLoop] at h
    split at h <;> cases h
  | cons record records ih =>
    obtain ⟨isMatch, hmatch, h⟩ := Except.bind_eq_ok.1 h
    cases isMatch with
    | false =>
      obtain ⟨r, hr, hspec⟩ := ih h
      exact ⟨r, List.mem_cons_of_mem _ hr, hspec⟩
    | true =>
      simp only [Bool.not_true, Bool.false_eq_true, if_false] at h
      split at h
      · -- Rejected by WebPKI.
        obtain ⟨r, hr, hspec⟩ := ih h
        exact ⟨r, List.mem_cons_of_mem _ hr, hspec⟩
      · rename_i hpkix
        obtain rfl : record.usage = usage := by simpa [pure, Except.pure] using h
        exact ⟨record, List.mem_cons_self, rfl, hmatch, by simpa using hpkix⟩

omit [Sha2] in
/-- Without records nothing is matched. -/
theorem evaluateNoTlsaPolicy_ne_matched (mode : DomainTrustMode) (webpkiStatus : WebPkiStatus)
    (usage : TlsaUsage) : evaluateNoTlsaPolicy mode webpkiStatus ≠ .ok (.matched usage) := by
  cases mode <;> cases webpkiStatus <;> simp [evaluateNoTlsaPolicy]

/-- A match needs TLSA records that are DNSSEC-secure, and one that matches. -/
theorem evaluatePolicy_eq_matched {input : DaneCertificateChainValidationInput} {usage : TlsaUsage}
    (h : evaluatePolicyWithCertificateChain input = .ok (.matched usage)) :
    input.dnssecSecure ∧ ∃ record ∈ input.tlsaRecords, record.usage = usage ∧
      (record.isPkixUsage → input.webpkiStatus = .valid) ∧
      ∃ spkiDer, endEntitySpki input = .ok spkiDer ∧ recordMatchesChain record
        ⟨input.endEntityDer, spkiDer, input.intermediateDer⟩ = .ok true := by
  obtain ⟨spkiDer, hspki, h⟩ := Except.bind_eq_ok.1 h
  split at h
  · split at h
    · cases h
    · rename_i hsecure
      obtain ⟨record, hmem, husage, hmatch, hpkix⟩ := evaluateTlsaLoop_eq_matched h
      exact ⟨by simpa using hsecure, record, hmem, husage, hpkix, spkiDer, hspki, hmatch⟩
  · exact absurd h (evaluateNoTlsaPolicy_ne_matched _ _ _)

/-- The loop either matches a record or fails: it never falls back. -/
theorem evaluateTlsaLoop_eq_ok {chain : CertificateChainInput} {webpkiStatus : WebPkiStatus}
    {records : List TlsaRecord} {rejected : Bool} {d : DaneDecision}
    (h : evaluateTlsaLoop chain webpkiStatus records rejected = .ok d) :
    d = .failed ∨ ∃ usage, d = .matched usage := by
  induction records generalizing rejected with
  | nil =>
    rw [evaluateTlsaLoop] at h
    split_ifs at h
    exact .inl (Except.ok.inj h).symm
  | cons record records ih =>
    obtain ⟨isMatch, -, h⟩ := Except.bind_eq_ok.1 h
    split_ifs at h
    · exact ih h
    · exact ih h
    · exact .inr ⟨record.usage, (Except.ok.inj h).symm⟩

/-- A policy with TLSA records is decided by them. -/
theorem evaluatePolicy_eq_ok {input : DaneCertificateChainValidationInput} {d : DaneDecision}
    (hne : input.tlsaRecords ≠ []) (h : evaluatePolicyWithCertificateChain input = .ok d) :
    d = .failed ∨ ∃ usage, d = .matched usage := by
  obtain ⟨spkiDer, -, h⟩ := Except.bind_eq_ok.1 h
  rw [if_pos hne] at h
  split_ifs at h
  exact evaluateTlsaLoop_eq_ok h

/-! ## What a rejection by WebPKI says -/

theorem recordMatchesCertificate_ne_webPkiFailed (record : TlsaRecord) (certDer : List UInt8) :
    recordMatchesCertificate record certDer ≠ .error (.failed .webPkiFailed) := by
  intro h
  rw [recordMatchesCertificate] at h
  split at h
  · cases h
  · rcases Except.bind_eq_error.1 h with h | ⟨spkiDer, -, h⟩
    · rcases certificateFault_of_extractSpkiDer h with h | h | h <;> cases h
    · cases h

theorem recordMatchesChain_ne_webPkiFailed (record : TlsaRecord) (chain : CertificateChainInput) :
    recordMatchesChain record chain ≠ .error (.failed .webPkiFailed) := by
  intro h
  have hany : ∀ l : List (List UInt8),
      l.anyM (recordMatchesCertificate record) ≠ .error (.failed .webPkiFailed) := by
    intro l
    induction l with
    | nil => rintro ⟨⟩
    | cons cert l ih =>
      rw [List.anyM, ne_eq, Except.bind_eq_error]
      rintro (h | ⟨_ | _, -, h⟩)
      · exact recordMatchesCertificate_ne_webPkiFailed _ _ h
      · exact ih h
      · cases h
  unfold recordMatchesChain at h
  split at h
  · cases h
  · cases h
  · exact hany _ h
  · exact hany _ h

/-- The loop reports WebPKI only when WebPKI has not accepted the chain. -/
theorem evaluateTlsaLoop_eq_webPkiFailed {chain : CertificateChainInput}
    {webpkiStatus : WebPkiStatus} {records : List TlsaRecord} {rejected : Bool}
    (h : evaluateTlsaLoop chain webpkiStatus records rejected = .error (.failed .webPkiFailed)) :
    rejected ∨ webpkiStatus ≠ .valid := by
  induction records generalizing rejected with
  | nil =>
    rw [evaluateTlsaLoop] at h
    split at h
    · exact .inl ‹_›
    · cases h
  | cons record records ih =>
    rcases Except.bind_eq_error.1 h with h | ⟨isMatch, -, h⟩
    · exact absurd h (recordMatchesChain_ne_webPkiFailed _ _)
    · split_ifs at h with hmatch hpkix
      · exact ih h
      · exact .inr hpkix.2
      · cases h

theorem evaluatePolicy_eq_webPkiFailed {input : DaneCertificateChainValidationInput}
    (h : evaluatePolicyWithCertificateChain input = .error (.failed .webPkiFailed)) :
    input.webpkiStatus ≠ .valid := by
  rcases Except.bind_eq_error.1 h with h | ⟨spkiDer, -, h⟩
  · rw [endEntitySpki] at h
    split_ifs at h
    rcases certificateFault_of_extractSpkiDer h with h | h | h <;> cases h
  · split_ifs at h
    · cases h
    · simpa using evaluateTlsaLoop_eq_webPkiFailed h
    · intro hvalid
      rw [hvalid] at h
      cases hmode : input.mode <;> simp [hmode, evaluateNoTlsaPolicy] at h

end Policy

end Hns
