import Hns.Transport.Verifier

/-!
# Trust anchors

What a server has shown when it is accepted because of a record of a
trust-anchor usage. That one certificate is signed by another is any relation
`signedBy`, and a certification path leads along it from the end entity to the
anchor. The verifier never asks for that relation: it compares the record with
each certificate that is presented, whether or not the end entity has anything
to do with it. What is left is that the anchor was presented
(`verifyServerCert_anchor`), and that a server which presents its certificates
in order, each signed by the next one, has shown a path.
-/

namespace Hns

open Relation

/-- The usages whose records are about a certificate above the end entity. -/
def TlsaUsage.IsTrustAnchor (usage : TlsaUsage) : Prop := usage = .pkixTa ∨ usage = .daneTa

/-- `signedBy` leads from the one certificate to the other. -/
abbrev CertificationPath (signedBy : List UInt8 → List UInt8 → Prop) :
    List UInt8 → List UInt8 → Prop := ReflTransGen signedBy

/-- Certificates presented in order: there is a path to every one of them. -/
theorem certificationPath_of_isChain {signedBy : List UInt8 → List UInt8 → Prop}
    {endEntity anchor : List UInt8} {intermediates : List (List UInt8)} {k : ℕ}
    (hk : intermediates[k]? = some anchor)
    (hchain : (endEntity :: intermediates.take (k + 1)).IsChain signedBy) :
    CertificationPath signedBy endEntity anchor := by
  refine List.relationReflTransGen_of_exists_isChain_cons _ hchain ?_
  rw [List.getElem?_eq_some_iff] at hk
  obtain ⟨hlt, rfl⟩ := hk
  rw [List.getLast_cons (by simpa using List.ne_nil_of_length_pos (by omega)),
    List.getLast_eq_getElem]
  simp [List.length_take, Nat.min_eq_left (Nat.succ_le_of_lt hlt)]

section

variable [Sha2]

namespace DaneServerCertVerifier

variable {ε : Type}

/-- A server that is accepted because of a record of a trust-anchor usage has presented a
    certificate that a DNSSEC-secure record of that usage matches, no certificate before it does,
    and WebPKI has accepted the chain if the usage asks for it. A path leads to the certificate
    when the certificates up to it are presented in order. -/
theorem verifyServerCert_anchor {signedBy : List UInt8 → List UInt8 → Prop}
    {webpki : WebPkiServerVerifier ε} {thread : ThreadId} {endEntity : List UInt8}
    {intermediates : List (List UInt8)} {serverName : String} {ocspResponse : List UInt8} {now : ℕ}
    {v v' : DaneServerCertVerifier} {usage : TlsaUsage}
    (h : verifyServerCert webpki thread endEntity intermediates serverName ocspResponse now v =
      .ok () v')
    (hd : v'.decision thread = some (.matched usage)) (hta : usage.IsTrustAnchor) :
    v.tls.dnssecSecure ∧
      (usage = .pkixTa → webpki endEntity intermediates serverName ocspResponse now = .ok ()) ∧
      ∃ record ∈ v.tls.tlsaRecords, record.usage = usage ∧
        ∃ k anchor, intermediates[k]? = some anchor ∧
          recordMatchesCertificate record anchor = .ok true ∧
          (∀ cert ∈ intermediates.take k, recordMatchesCertificate record cert = .ok false) ∧
          ((endEntity :: intermediates.take (k + 1)).IsChain signedBy →
            CertificationPath signedBy endEntity anchor) := by
  obtain ⟨d, hd', hpolicy⟩ := verifyServerCert_eq_ok h
  obtain rfl : d = .matched usage := Option.some.inj (hd'.symm.trans hd)
  obtain ⟨hsecure, record, hmem, rfl, hpkix, spkiDer, -, hmatch⟩ :=
    evaluatePolicy_eq_matched hpolicy
  have hee : record.isEeUsage = false := by
    rcases hta with hta | hta <;> simp [TlsaRecord.isEeUsage, hta]
  obtain ⟨k, anchor, hk, hanchor, hbefore⟩ := (recordMatchesChain_eq_true hee).1 hmatch
  refine ⟨hsecure, ?_, record, hmem, rfl, k, anchor, hk, hanchor, hbefore,
    certificationPath_of_isChain hk⟩
  intro husage
  exact webpkiStatus_eq_valid.1 (hpkix (by simp [TlsaRecord.isPkixUsage, husage]))

/-- The verifier accepts every end entity beside which a copy of the anchor is presented. -/
theorem exists_verifyServerCert_of_mem (webpki : WebPkiServerVerifier ε) (thread : ThreadId)
    {endEntity spkiDer anchor : List UInt8} {intermediates : List (List UInt8)}
    (serverName : String) (ocspResponse : List UInt8) (now : ℕ) {v : DaneServerCertVerifier}
    (hsecure : v.tls.dnssecSecure)
    (hrecords : v.tls.tlsaRecords = [⟨.daneTa, .fullCertificate, .exact, anchor⟩])
    (hmem : anchor ∈ intermediates) (hspki : extractSpkiDer endEntity = .ok spkiDer)
    (hh : v.handshakes.poisoned = false) (hl : v.lastSuccess.poisoned = false) :
    ∃ v', verifyServerCert webpki thread endEntity intermediates serverName ocspResponse now v =
      .ok () v' ∧ v'.decision thread = some (.matched .daneTa) := by
  refine exists_verifyServerCert ?_ (by simp) hspki hh hl
  have hmatches (cert : List UInt8) :
      recordMatchesCertificate ⟨.daneTa, .fullCertificate, .exact, anchor⟩ cert =
        .ok (decide (cert = anchor)) := rfl
  have hany : intermediates.anyM
      (recordMatchesCertificate ⟨.daneTa, .fullCertificate, .exact, anchor⟩) = .ok true := by
    rw [Except.anyM_eq_ok_true]
    refine ⟨intermediates.idxOf anchor, anchor, List.getElem?_idxOf hmem, by simp [hmatches], ?_⟩
    intro cert hcert
    rw [hmatches, decide_eq_false]
    rintro rfl
    exact lt_irrefl _ ((List.mem_take_iff_idxOf_lt hmem).1 hcert)
  simp only [evaluatePolicyWithCertificateChain, endEntitySpki, validationInput, hrecords, hsecure]
  simp [TlsaRecord.isEeUsage, evaluateTlsaForChain, evaluateTlsaLoop, recordMatchesChain, hany,
    TlsaRecord.isPkixUsage, pure, Except.pure]

end DaneServerCertVerifier

end

/-! ## A server beside a copy of an anchor -/

namespace AnchorSample

open DaneServerCertVerifier

/-- The records at hand hold certificates as they are: no digest is taken. -/
scoped instance : Sha2 := ⟨fun _ => .zero, fun _ => .zero, fun _ => .zero⟩

/-- A DER element of less than 128 octets. -/
def der (tag : UInt8) (value : List UInt8) : List UInt8 := tag :: UInt8.ofNat value.length :: value

def algorithmIdentifier : List UInt8 := der 0x30 (der 0x06 [0x2a, 0x86, 0x48] ++ der 0x05 [])

/-- A certificate with that key. -/
def certificate (keyBits : List UInt8) : List UInt8 :=
  der 0x30 (der 0x30 (der 0x02 [0x01] ++ algorithmIdentifier ++ der 0x30 [] ++ der 0x30 [] ++
    der 0x30 [] ++ der 0x30 (algorithmIdentifier ++ der 0x03 keyBits)) ++ algorithmIdentifier ++
    der 0x03 [0x00, 0x00])

def leaf : List UInt8 := certificate [0x00, 0x01, 0x02]

def anchor : List UInt8 := certificate [0x00, 0x09, 0x09]

/-- The zone has published the anchor, under `usage`. -/
def verifier (usage : TlsaUsage) : DaneServerCertVerifier :=
  new ⟨.hnsStrict, true, [⟨usage, .fullCertificate, .exact, anchor⟩]⟩

/-- A WebPKI verifier that accepts every chain, or none. -/
def webpki (accepts : Bool) : WebPkiServerVerifier Unit := fun _ _ _ _ _ =>
  if accepts then .ok () else .error (.webpki ())

theorem exists_extractSpkiDer_leaf : ∃ spkiDer, extractSpkiDer leaf = .ok spkiDer :=
  ⟨der 0x30 (algorithmIdentifier ++ der 0x03 [0x00, 0x01, 0x02]), by decide +kernel⟩

/-- The anchor is accepted beside the leaf under both usages, under `daneTa` against WebPKI. -/
theorem exists_verifyServerCert_leaf (usage : TlsaUsage) (husage : usage.IsTrustAnchor) :
    ∃ v', verifyServerCert (webpki (usage = .pkixTa)) 0 leaf [anchor] "anchored" [] 0
        (verifier usage) = .ok () v' ∧ v'.decision 0 = some (.matched usage) := by
  obtain ⟨spkiDer, hspki⟩ := exists_extractSpkiDer_leaf
  refine exists_verifyServerCert ?_ (by simp) hspki rfl rfl
  rcases husage with rfl | rfl
  · decide +kernel
  · decide +kernel

/-- The server has presented the leaf and the anchor that has signed it. -/
theorem certificationPath_of_verifyServerCert :
    ∃ (k : ℕ) (cert : List UInt8), [anchor][k]? = some cert ∧
      CertificationPath (fun subject issuer => subject = leaf ∧ issuer = anchor) leaf cert := by
  obtain ⟨v', hv', hd⟩ := exists_verifyServerCert_leaf .daneTa (.inr rfl)
  obtain ⟨-, -, record, -, -, k, cert, hk, -, -, hpath⟩ :=
    @verifyServerCert_anchor _ _ (fun subject issuer => subject = leaf ∧ issuer = anchor) _ _ _ _ _
      _ _ _ _ _ hv' hd (.inr rfl)
  refine ⟨k, cert, hk, hpath ?_⟩
  cases k with
  | zero => simp
  | succ k => simp at hk

/-- Nobody but the anchor itself is signed by the anchor, and beside a copy of it the leaf is
    accepted all the same: no path leads from the leaf to a certificate that a record matches. -/
theorem exists_verifyServerCert_without_path :
    ∃ signedBy : List UInt8 → List UInt8 → Prop, ∀ usage, usage.IsTrustAnchor →
      ∃ v', verifyServerCert (webpki (usage = .pkixTa)) 0 leaf [anchor] "anchored" [] 0
          (verifier usage) = .ok () v' ∧ v'.decision 0 = some (.matched usage) ∧
        ¬∃ record ∈ (verifier usage).tls.tlsaRecords, ∃ cert,
          recordMatchesCertificate record cert = .ok true ∧
          CertificationPath signedBy leaf cert := by
  refine ⟨fun subject issuer => subject = anchor ∧ issuer = anchor, fun usage husage => ?_⟩
  obtain ⟨v', hv', hd⟩ := exists_verifyServerCert_leaf usage husage
  refine ⟨v', hv', hd, ?_⟩
  rintro ⟨record, hrecord, cert, hmatch, hpath⟩
  have hne : leaf ≠ anchor := by decide +kernel
  -- The leaf is signed by nobody, so that a path leads nowhere but to the leaf.
  obtain rfl : leaf = cert := by
    rcases hpath.cases_head with rfl | ⟨issuer, ⟨hleaf, -⟩, -⟩
    · rfl
    · exact absurd hleaf hne
  obtain rfl : record = ⟨usage, .fullCertificate, .exact, anchor⟩ := by
    simpa [verifier, new] using hrecord
  simp [recordMatchesCertificate, TlsaRecord.matchesDer, hne] at hmatch

end AnchorSample

end Hns
