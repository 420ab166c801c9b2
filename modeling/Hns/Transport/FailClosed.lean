import Hns.Transport.Anchor

/-!
# What lets a server in

The purpose of the TLSA policy, in terms of the certificates alone. A record
`Associates` a certificate when what its selector takes of the certificate has,
under its matching type, the association data of the record; a usage has the
certificates it is about, the end entity or what is presented above it
(`candidates`). The policy fails closed:

* it matches a usage only when a DNSSEC-secure record of that usage associates
  one of these certificates, and WebPKI accepts the chain if the usage asks for
  it (`DaneCertificateChainValidationInput.Matches`);
* with records it never falls back, and without records strict mode is an error.

The verifier accepts what the policy does not fail, with one more demand of its
own (`verifyServerCert_iff`): it describes the end entity that it accepts, whose
key it must be able to extract, and keeps the description behind its two locks.
-/

namespace Hns

section

variable [Sha2]

/-! ## Association -/

/-- What the matching type makes of the selected octets. -/
def TlsaMatching.apply : TlsaMatching → List UInt8 → List UInt8
  | .exact, selected => selected
  | .sha256, selected => (Sha2.sha256 selected).bytes
  | .sha512, selected => (Sha2.sha512 selected).bytes

omit [Sha2] in
/-- The octets that a selector takes of a certificate. -/
def TlsaSelector.Selects (selector : TlsaSelector) (certDer selected : List UInt8) : Prop :=
  match selector with
  | .fullCertificate => selected = certDer
  | .subjectPublicKeyInfo => extractSpkiDer certDer = .ok selected

/-- The record is about this certificate. -/
def TlsaRecord.Associates (record : TlsaRecord) (certDer : List UInt8) : Prop :=
  ∃ selected, record.selector.Selects certDer selected ∧
    record.matching.apply selected = record.associationData

omit [Sha2] in
/-- The certificates that a record of the usage may be about. -/
def TlsaUsage.candidates (usage : TlsaUsage) (input : DaneCertificateChainValidationInput) :
    List (List UInt8) :=
  match usage with
  | .pkixEe | .daneEe => [input.endEntityDer]
  | .pkixTa | .daneTa => input.intermediateDer

/-- What a match of the usage stands for. -/
structure DaneCertificateChainValidationInput.Matches
    (input : DaneCertificateChainValidationInput) (usage : TlsaUsage) : Prop where
  secure : input.dnssecSecure
  associated : ∃ record ∈ input.tlsaRecords, record.usage = usage ∧
    ∃ certDer ∈ usage.candidates input, record.Associates certDer
  webpki : usage = .pkixTa ∨ usage = .pkixEe → input.webpkiStatus = .valid

/-- A record that matches a certificate, by what stands for its key, associates it. -/
theorem TlsaRecord.Associates.of_matchesDer {record : TlsaRecord} {certDer spkiDer : List UInt8}
    (hspki : record.selector = .subjectPublicKeyInfo → extractSpkiDer certDer = .ok spkiDer)
    (h : record.matchesDer certDer spkiDer) : record.Associates certDer := by
  obtain ⟨usage, selector, matching, data⟩ := record
  cases selector with
  | fullCertificate =>
    refine ⟨certDer, rfl, ?_⟩
    cases matching <;> simpa [matchesDer, TlsaMatching.apply] using h
  | subjectPublicKeyInfo =>
    refine ⟨spkiDer, hspki rfl, ?_⟩
    cases matching <;> simpa [matchesDer, TlsaMatching.apply] using h

theorem TlsaRecord.Associates.of_certificate {record : TlsaRecord} {certDer : List UInt8}
    (h : recordMatchesCertificate record certDer = .ok true) : record.Associates certDer := by
  unfold recordMatchesCertificate at h
  split at h
  · rename_i hselector
    exact .of_matchesDer (by simp [hselector]) (Except.ok.inj h)
  · obtain ⟨spkiDer, hspki, h⟩ := Except.bind_eq_ok.1 h
    exact .of_matchesDer (fun _ => hspki) (Except.ok.inj h)

omit [Sha2] in
/-- The key of the end entity is at hand for a record that compares it. -/
theorem extractSpkiDer_of_endEntitySpki {input : DaneCertificateChainValidationInput}
    {spkiDer : List UInt8} {record : TlsaRecord} (hmem : record ∈ input.tlsaRecords)
    (hee : record.isEeUsage) (h : endEntitySpki input = .ok spkiDer)
    (hselector : record.selector = .subjectPublicKeyInfo) :
    extractSpkiDer input.endEntityDer = .ok spkiDer := by
  rwa [endEntitySpki, if_pos] at h
  rw [List.any_eq_true]
  exact ⟨record, hmem, by simp [hselector, hee]⟩

/-! ## The policy -/

/-- A usage is matched only for what a match stands for. -/
theorem matches_of_evaluatePolicy {input : DaneCertificateChainValidationInput} {usage : TlsaUsage}
    (h : evaluatePolicyWithCertificateChain input = .ok (.matched usage)) : input.Matches usage := by
  obtain ⟨hsecure, record, hmem, rfl, hpkix, spkiDer, hspki, hmatch⟩ := evaluatePolicy_eq_matched h
  refine ⟨hsecure, ⟨record, hmem, rfl, ?_⟩, fun hu => hpkix (by simpa [TlsaRecord.isPkixUsage])⟩
  cases hee : record.isEeUsage with
  | true =>
    have hder : record.matchesDer input.endEntityDer spkiDer := by
      rw [TlsaRecord.isEeUsage, decide_eq_true_eq] at hee
      rcases hee with hu | hu <;> simpa [recordMatchesChain, hu] using hmatch
    have hcandidates : record.usage.candidates input = [input.endEntityDer] := by
      rw [TlsaRecord.isEeUsage, decide_eq_true_eq] at hee
      rcases hee with hu | hu <;> rw [hu] <;> rfl
    refine ⟨input.endEntityDer, by simp [hcandidates], ?_⟩
    exact .of_matchesDer (extractSpkiDer_of_endEntitySpki hmem hee hspki) hder
  | false =>
    obtain ⟨k, anchor, hk, hanchor, -⟩ := (recordMatchesChain_eq_true hee).1 hmatch
    have hcandidates : record.usage.candidates input = input.intermediateDer := by
      revert hee
      rcases hu : record.usage <;> simp [TlsaRecord.isEeUsage, hu, TlsaUsage.candidates]
    rw [hcandidates]
    exact ⟨anchor, List.mem_of_getElem? hk, .of_certificate hanchor⟩

/-! ## The verifier -/

namespace DaneServerCertVerifier

variable {ε : Type}

omit [Sha2] in
theorem storeCapture_eq_ok {thread : ThreadId} {d : DaneDecision}
    {inspection : TlsCertificateInspection} {v v' : DaneServerCertVerifier}
    (h : storeCapture (ε := ε) thread d inspection v = .ok () v') :
    v.handshakes.poisoned = false ∧ v.lastSuccess.poisoned = false := by
  simp only [storeCapture] at h
  split_ifs at h with hh hl
  · exact ⟨by simpa using hh, by simpa using hl⟩
  · exact ⟨by simpa using hh, by simpa using hl⟩

omit [Sha2] in
theorem tlsCertificateInspection_eq_ok {endEntity : List UInt8} {intermediates : List (List UInt8)}
    {webpkiStatus : WebPkiStatus} {inspection : TlsCertificateInspection}
    (h : tlsCertificateInspection (ε := ε) endEntity intermediates webpkiStatus = .ok inspection) :
    ∃ spkiDer, extractSpkiDer endEntity = .ok spkiDer := by
  unfold tlsCertificateInspection at h
  split at h
  · exact ⟨_, ‹_›⟩
  · cases h
  · cases h

/-- The verifier accepts the decisions of the policy that are not a failure, for an end entity
    whose key it can extract and while no lock is poisoned. -/
theorem verifyServerCert_iff (webpki : WebPkiServerVerifier ε) (thread : ThreadId)
    (endEntity : List UInt8) (intermediates : List (List UInt8)) (serverName : String)
    (ocspResponse : List UInt8) (now : ℕ) (v : DaneServerCertVerifier) :
    (∃ v', verifyServerCert webpki thread endEntity intermediates serverName ocspResponse now v =
        .ok () v') ↔
      (∃ d, d ≠ .failed ∧ evaluatePolicyWithCertificateChain (v.validationInput endEntity
        intermediates (webpki endEntity intermediates serverName ocspResponse now)) = .ok d) ∧
      (∃ spkiDer, extractSpkiDer endEntity = .ok spkiDer) ∧
      v.handshakes.poisoned = false ∧ v.lastSuccess.poisoned = false := by
  constructor
  · rintro ⟨v', h⟩
    obtain ⟨d, -, hpolicy⟩ := verifyServerCert_eq_ok h
    -- The policy has decided, so that acceptance comes from the arm of a decision.
    simp only [verifyServerCert, hpolicy] at h
    split at h
    · cases h
    · rename_i d' hfailed hd
      obtain rfl : d = d' := Except.ok.inj hd
      obtain ⟨inspection, v₁, hread, hstore⟩ := EStateM.run_bind_eq_ok.1 h
      rw [EStateM.checked_eq_ok] at hread
      obtain ⟨hinspection, rfl⟩ := hread
      exact ⟨⟨d, by simpa using hfailed, hpolicy⟩, tlsCertificateInspection_eq_ok hinspection,
        storeCapture_eq_ok hstore⟩
    · cases ‹Except.ok _ = _›
    · cases h
    · cases h
  · rintro ⟨⟨d, hd, hpolicy⟩, ⟨spkiDer, hspki⟩, hh, hl⟩
    obtain ⟨v', hv', -⟩ := exists_verifyServerCert hpolicy hd hspki hh hl
    exact ⟨v', hv'⟩

/-- The policy fails closed, and nothing but its decision lets a server in. -/
theorem failClosed :
    (∀ input usage, evaluatePolicyWithCertificateChain input = .ok (.matched usage) →
      input.Matches usage) ∧
    (∀ input d, input.tlsaRecords ≠ [] → evaluatePolicyWithCertificateChain input = .ok d →
      d ≠ .webPkiFallback ∧ d ≠ .noTlsa) ∧
    (∀ input, input.mode = .hnsStrict → input.tlsaRecords = [] →
      evaluatePolicyWithCertificateChain input = .error (.failed .missingRequiredTlsa)) ∧
    ∀ (webpki : WebPkiServerVerifier ε) thread endEntity intermediates serverName ocspResponse now v,
      (∃ v', verifyServerCert webpki thread endEntity intermediates serverName ocspResponse now v =
          .ok () v') ↔
        (∃ d, d ≠ .failed ∧ evaluatePolicyWithCertificateChain (v.validationInput endEntity
          intermediates (webpki endEntity intermediates serverName ocspResponse now)) = .ok d) ∧
        (∃ spkiDer, extractSpkiDer endEntity = .ok spkiDer) ∧
        v.handshakes.poisoned = false ∧ v.lastSuccess.poisoned = false := by
  refine ⟨fun _ _ h => matches_of_evaluatePolicy h, ?_, ?_, verifyServerCert_iff⟩
  · intro input d hne h
    rcases evaluatePolicy_eq_ok hne h with rfl | ⟨usage, rfl⟩
    · exact ⟨by simp, by simp⟩
    · exact ⟨by simp, by simp⟩
  · intro input hmode hnone
    have hspki : endEntitySpki input = .ok [] := by simp [endEntitySpki, hnone]
    rw [evaluatePolicyWithCertificateChain, hspki]
    simp [hnone, hmode, evaluateNoTlsaPolicy, bind, Except.bind]

end DaneServerCertVerifier

end

/-! ## A matched end entity that cannot be described -/

namespace FailClosedSample

open AnchorSample DaneServerCertVerifier

/-- An empty sequence: a record may hold it, but there is no key in it. -/
def endEntity : List UInt8 := der 0x30 []

/-- The zone has published the end entity itself. -/
def verifier : DaneServerCertVerifier :=
  new ⟨.hnsStrict, true, [⟨.daneEe, .fullCertificate, .exact, endEntity⟩]⟩

/-- The policy matches the end entity, no lock is poisoned, and the server is turned away. -/
theorem not_accepted_of_matched :
    evaluatePolicyWithCertificateChain (verifier.validationInput endEntity []
        (webpki false endEntity [] "closed" [] 0)) = .ok (.matched .daneEe) ∧
      verifier.handshakes.poisoned = false ∧ verifier.lastSuccess.poisoned = false ∧
      ¬∃ v', verifyServerCert (webpki false) 0 endEntity [] "closed" [] 0 verifier = .ok () v' := by
  refine ⟨by decide +kernel, rfl, rfl, ?_⟩
  rw [verifyServerCert_iff]
  rintro ⟨-, ⟨spkiDer, hspki⟩, -⟩
  have hmalformed : extractSpkiDer endEntity = .error malformed := by decide +kernel
  rw [hmalformed] at hspki
  cases hspki

end FailClosedSample

end Hns
