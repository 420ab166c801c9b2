import Hns.Dane.Policy
import Hns.Lib.Table

/-!
# The certificate verifier

`DaneServerCertVerifier` of `hns-transport`, which judges the certificates that
a server presents in a TLS handshake. The WebPKI verifier of `rustls` is a
parameter: any function of the certificates, the name, the OCSP response and the
time. What it says is one input of the TLSA policy, whose decision stands.

The decision and the certificates are kept for the thread that is in the
handshake and for the name of the server.
-/

namespace Hns

structure TlsValidation where
  mode : DomainTrustMode
  dnssecSecure : Bool
  tlsaRecords : List TlsaRecord
  deriving DecidableEq

structure TlsCertificateInspection where
  endEntityDer : List UInt8
  endEntitySpkiDer : List UInt8
  intermediateDer : List (List UInt8)
  webpkiStatus : WebPkiStatus
  deriving DecidableEq

/-- The errors of `rustls`: a text, or what its WebPKI verifier reports. -/
inductive RustlsError (ε : Type)
  | general (text : String)
  | webpki (error : ε)

/-- `verify_server_cert` of the WebPKI verifier. -/
abbrev WebPkiServerVerifier (ε : Type) :=
  List UInt8 → List (List UInt8) → String → List UInt8 → ℕ → Except (RustlsError ε) Unit

/-- A value behind a lock, which a panic of its holder poisons. -/
structure Mutex (α : Type) where
  value : α
  poisoned : Bool

/-! ## The state of the verifier -/

structure HandshakeCapture where
  serverName : String
  decision : Option DaneDecision
  inspection : Option TlsCertificateInspection
  deriving DecidableEq

/-- `HandshakeCapture::default()`. -/
def HandshakeCapture.default : HandshakeCapture := ⟨"", none, none⟩

abbrev ThreadId := ℕ

structure DaneServerCertVerifier where
  tls : TlsValidation
  handshakes : Mutex (Table ThreadId HandshakeCapture)
  lastSuccess : Mutex (Table String HandshakeCapture)

namespace DaneServerCertVerifier

def new (tls : TlsValidation) : DaneServerCertVerifier := ⟨tls, ⟨.empty, false⟩, ⟨.empty, false⟩⟩

def beginHandshake (thread : ThreadId) (serverName : String) (v : DaneServerCertVerifier) :
    DaneServerCertVerifier :=
  if v.handshakes.poisoned then v
  else
    { v with
      handshakes.value := v.handshakes.value.insert thread
        { HandshakeCapture.default with serverName := serverName.toLower } }

/-- What is kept for a thread, with a decision and the certificates. -/
def captureFor (v : DaneServerCertVerifier) (thread : ThreadId) (decision : DaneDecision)
    (inspection : TlsCertificateInspection) : HandshakeCapture :=
  { (v.handshakes.value thread).getD .default with
    decision := some decision, inspection := some inspection }

variable {ε : Type}

def storeCapture (thread : ThreadId) (decision : DaneDecision)
    (inspection : TlsCertificateInspection) :
    EStateM (Fault (RustlsError ε)) DaneServerCertVerifier Unit := fun v =>
  if v.handshakes.poisoned then
    .error (.failed (.general "TLS handshake lock is poisoned")) v
  else
    let capture := v.captureFor thread decision inspection
    let v := { v with handshakes.value := v.handshakes.value.insert thread capture }
    if v.lastSuccess.poisoned then
      .error (.failed (.general "TLS handshake cache lock is poisoned")) v
    else if capture.serverName ≠ "" then
      .ok () { v with lastSuccess.value := v.lastSuccess.value.insert capture.serverName capture }
    else .ok () v

def tlsCertificateInspection (endEntity : List UInt8) (intermediates : List (List UInt8))
    (webpkiStatus : WebPkiStatus) :
    Except (Fault (RustlsError ε)) TlsCertificateInspection :=
  match extractSpkiDer endEntity with
  | .ok endEntitySpkiDer => .ok ⟨endEntity, endEntitySpkiDer, intermediates, webpkiStatus⟩
  | .error (.failed e) =>
    .error (.failed (.general ("TLS certificate inspection failed: " ++ e.text)))
  | .error .panic => .error .panic

/-- What the policy is asked about a chain, of which WebPKI says `webpkiResult`. -/
def validationInput (v : DaneServerCertVerifier) (endEntity : List UInt8)
    (intermediates : List (List UInt8)) (webpkiResult : Except (RustlsError ε) Unit) :
    DaneCertificateChainValidationInput where
  mode := v.tls.mode
  dnssecSecure := v.tls.dnssecSecure
  tlsaRecords := v.tls.tlsaRecords
  endEntityDer := endEntity
  intermediateDer := intermediates
  webpkiStatus := if webpkiResult.isOk then .valid else .invalid

variable [Sha2]

def verifyServerCert (webpki : WebPkiServerVerifier ε) (thread : ThreadId)
    (endEntity : List UInt8) (intermediates : List (List UInt8)) (serverName : String)
    (ocspResponse : List UInt8) (now : ℕ) :
    EStateM (Fault (RustlsError ε)) DaneServerCertVerifier Unit := fun v =>
  let webpkiResult := webpki endEntity intermediates serverName ocspResponse now
  let input := v.validationInput endEntity intermediates webpkiResult
  match evaluatePolicyWithCertificateChain input with
  | .ok .failed => .error (.failed (.general "DANE certificate association did not match")) v
  | .ok decision =>
    (do
      let inspection ← EStateM.checked
        (tlsCertificateInspection endEntity intermediates input.webpkiStatus)
      storeCapture thread decision inspection) v
  | .error (.failed .webPkiFailed) => EStateM.checked (webpkiResult.mapError .failed) v
  | .error (.failed e) =>
    .error (.failed (.general ("DANE policy rejected certificate: " ++ e.text))) v
  | .error .panic => .error .panic v

/-- The decision that is kept for a thread. -/
def decision (v : DaneServerCertVerifier) (thread : ThreadId) : Option DaneDecision :=
  (v.handshakes.value thread).bind HandshakeCapture.decision

/-! ## What acceptance says -/

omit [Sha2] in
/-- A capture that is stored is the one kept for the thread; the policy stays. -/
theorem decision_of_storeCapture {thread : ThreadId} {d : DaneDecision}
    {inspection : TlsCertificateInspection} {v v' : DaneServerCertVerifier}
    (h : storeCapture (ε := ε) thread d inspection v = .ok () v') : v'.decision thread = some d := by
  simp only [storeCapture] at h
  split_ifs at h <;> cases h <;> simp [decision, captureFor]

omit [Sha2] in
theorem exists_storeCapture (thread : ThreadId) (d : DaneDecision)
    (inspection : TlsCertificateInspection) {v : DaneServerCertVerifier}
    (hh : v.handshakes.poisoned = false) (hl : v.lastSuccess.poisoned = false) :
    ∃ v', storeCapture (ε := ε) thread d inspection v = .ok () v' := by
  simp only [storeCapture, hh, hl, Bool.false_eq_true, if_false]
  split_ifs
  · exact ⟨_, rfl⟩
  · exact ⟨_, rfl⟩

omit [Sha2] in
theorem webpkiStatus_eq_valid {v : DaneServerCertVerifier} {endEntity : List UInt8}
    {intermediates : List (List UInt8)} {webpkiResult : Except (RustlsError ε) Unit} :
    (v.validationInput endEntity intermediates webpkiResult).webpkiStatus = .valid ↔
      webpkiResult = .ok () := by
  cases webpkiResult <;> simp [validationInput, Except.isOk, Except.toBool]

omit [Sha2] in
theorem tlsCertificateInspection_of_ok {endEntity spkiDer : List UInt8}
    (intermediates : List (List UInt8)) (webpkiStatus : WebPkiStatus)
    (h : extractSpkiDer endEntity = .ok spkiDer) :
    tlsCertificateInspection (ε := ε) endEntity intermediates webpkiStatus =
      .ok ⟨endEntity, spkiDer, intermediates, webpkiStatus⟩ := by
  rw [tlsCertificateInspection, h]

variable {webpki : WebPkiServerVerifier ε} {thread : ThreadId} {endEntity : List UInt8}
  {intermediates : List (List UInt8)} {serverName : String} {ocspResponse : List UInt8} {now : ℕ}
  {v v' : DaneServerCertVerifier} {d : DaneDecision}

/-- The verifier accepts with a decision of the policy, and keeps it for the thread. -/
theorem verifyServerCert_eq_ok
    (h : verifyServerCert webpki thread endEntity intermediates serverName ocspResponse now v =
      .ok () v') :
    ∃ d, v'.decision thread = some d ∧
      evaluatePolicyWithCertificateChain (v.validationInput endEntity intermediates
        (webpki endEntity intermediates serverName ocspResponse now)) = .ok d := by
  simp only [verifyServerCert] at h
  split at h
  · cases h
  · rename_i d hfailed hpolicy
    obtain ⟨inspection, v₁, hread, hstore⟩ := EStateM.run_bind_eq_ok.1 h
    rw [EStateM.checked_eq_ok] at hread
    obtain ⟨-, rfl⟩ := hread
    exact ⟨d, decision_of_storeCapture hstore, hpolicy⟩
  · -- WebPKI was the reason: it has not accepted the chain, and its error is returned.
    rename_i hpolicy
    have hstatus := evaluatePolicy_eq_webPkiFailed hpolicy
    rw [EStateM.checked_eq_ok, Except.mapError_eq_ok] at h
    exact absurd (webpkiStatus_eq_valid.2 h.1) hstatus
  · cases h
  · cases h

/-- The verifier accepts what the policy does not fail, when it can extract the key of the end
    entity and no lock is poisoned. -/
theorem exists_verifyServerCert {spkiDer : List UInt8}
    (hpolicy : evaluatePolicyWithCertificateChain (v.validationInput endEntity intermediates
      (webpki endEntity intermediates serverName ocspResponse now)) = .ok d)
    (hd : d ≠ .failed) (hspki : extractSpkiDer endEntity = .ok spkiDer)
    (hh : v.handshakes.poisoned = false) (hl : v.lastSuccess.poisoned = false) :
    ∃ v', verifyServerCert webpki thread endEntity intermediates serverName ocspResponse now v =
      .ok () v' ∧ v'.decision thread = some d := by
  have hread := tlsCertificateInspection_of_ok (ε := ε) intermediates (v.validationInput endEntity
    intermediates (webpki endEntity intermediates serverName ocspResponse now)).webpkiStatus hspki
  obtain ⟨v', hv'⟩ := exists_storeCapture (ε := ε) thread d ⟨endEntity, spkiDer, intermediates,
    _⟩ hh hl
  refine ⟨v', ?_, decision_of_storeCapture hv'⟩
  simp only [verifyServerCert, hpolicy]
  rw [EStateM.bind_ok (EStateM.checked_ok hread)]
  exact hv'

end DaneServerCertVerifier

end Hns
