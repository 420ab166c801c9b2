import Hns.Dnssec.Nsec3

/-!
# Denials of one record

How the validation of a name error ends when one signed record serves for all
parts of the proof: without an error, whatever name is tried as the closest
encloser, and with a secure result when the record covers what it has to.
-/

namespace Hns

open DnsName

namespace SignedZone

variable [DnssecCrypto] {zone : SignedZone} {dnskeyRrset rrsigRrset : List ResourceRecord}
  {now : DnssecTime} {record : ResourceRecord} {name encloser : DnsName}

/-! ## NSEC -/

section

variable {entry : NsecEntry} (htype : record.recordType = .nsec)
  (hread : NsecRecord.fromRecord record = .ok ⟨entry.next, entry.bitmap.octets⟩)
  (hsecure : validateRrsetSignature zone.apex dnskeyRrset [record] rrsigRrset now = .ok .secure)

include htype hread hsecure

theorem validateNsecNameRange_single (name : DnsName) :
    validateNsecNameRange ⟨zone.apex, dnskeyRrset, name, [record], rrsigRrset, now⟩ =
      .ok (if nsecCoversName record.name entry.next name then .secure else .bogus) := by
  have hfilter : [record].filter (fun record => record.recordType = .nsec) = [record] := by
    simp [htype]
  rw [validateNsecNameRange, hsecure]
  simp only [thenIfSecure, Except.ok_bind, hfilter, secureIfAny, List.anyM, nsecRecordCovers, hread]
  cases nsecCoversName record.name entry.next name <;> rfl

/-- One record never leads to an error. -/
theorem exists_validateNsecNameError_single (hbelow : name.isStrictSubdomain encloser) :
    ∃ status, validateNsecNameError ⟨zone.apex, dnskeyRrset, name, encloser, [record], rrsigRrset,
      [record], rrsigRrset, now⟩ = .ok status := by
  obtain ⟨wildcard, hwildcard⟩ := exists_isWildcardOf hbelow
  rw [validateNsecNameError, if_neg (by simp [hbelow]), if_neg (by simp)]
  simp only [validateNsecNameRange_single htype hread hsecure, wildcardChild_eq_ok.2 hwildcard,
    thenIfSecure, Except.ok_bind]
  cases nsecCoversName record.name entry.next name
  · exact ⟨_, rfl⟩
  · cases nsecCoversName record.name entry.next wildcard
    · exact ⟨_, rfl⟩
    · exact ⟨_, rfl⟩

/-- One record that covers the name and the wildcard is a proof. -/
theorem validateNsecNameError_single (hbelow : name.isStrictSubdomain encloser)
    (hname : nsecCoversName record.name entry.next name) {wildcard : DnsName}
    (hwildcard : wildcard.IsWildcardOf encloser)
    (hcovers : nsecCoversName record.name entry.next wildcard) :
    validateNsecNameError ⟨zone.apex, dnskeyRrset, name, encloser, [record], rrsigRrset, [record],
      rrsigRrset, now⟩ = .ok .secure := by
  refine validateNsecNameError_eq_secure.2 ⟨hbelow, by simp, ?_, wildcard, hwildcard, ?_⟩
  · rw [validateNsecNameRange_single htype hread hsecure, if_pos hname]
  · rw [validateNsecNameRange_single htype hread hsecure, if_pos hcovers]

end

/-! ## NSEC3 -/

omit [DnssecCrypto] in
/-- The name one label below the closest encloser, above the query name. -/
theorem exists_nextCloserName (hbelow : name.isStrictSubdomain encloser) :
    ∃ nextCloser, nextCloserName name encloser = .ok nextCloser := by
  obtain ⟨-, hlt⟩ := isStrictSubdomain_iff.1 hbelow
  have hjoin := fromAscii_join
    (name.dropLabels (name.labels.length - (encloser.labels.length + 1)))
  rw [dropLabels] at hjoin
  have hle : ¬name.labels.length < encloser.labels.length + 1 := not_lt.2 hlt
  simp only [nextCloserName, hbelow, Bool.not_true, Bool.false_eq_true, if_false, if_neg hle,
    Except.mapError_eq_ok]
  exact ⟨_, hjoin⟩

section

variable {entry : Nsec3Entry} {proof : Nsec3ProofRecord} (hproof : zone.ProofOf proof entry)
  (hmax : entry.nsec3.iterations ≤ nsec3MaxIterations)

include hproof hmax

theorem nsec3MatchesName_eq (name : DnsName) :
    nsec3MatchesName proof.nsec3 proof.ownerHash name =
      .ok (decide (entry.nsec3.hash entry.original = entry.nsec3.hash name)) := by
  have halg : entry.nsec3.hashAlgorithm = nsec3HashSha1 := (of_decide_eq_true hproof.usable).1
  rw [nsec3MatchesName, hproof.nsec3, hproof.ownerHash, if_neg (by simp [hproof.usable]),
    nsec3Hash_eq_ok.2 ⟨halg, hmax, rfl⟩]
  rfl

theorem nsec3CoversName_eq (name : DnsName) :
    nsec3CoversName proof.nsec3 proof.ownerHash name =
      .ok (nsec3CoversHash (entry.nsec3.hash entry.original) entry.nsec3.nextHashedOwnerName
        (entry.nsec3.hash name)) := by
  have halg : entry.nsec3.hashAlgorithm = nsec3HashSha1 := (of_decide_eq_true hproof.usable).1
  rw [nsec3CoversName, hproof.nsec3, hproof.ownerHash, if_neg (by simp [hproof.usable]),
    nsec3Hash_eq_ok.2 ⟨halg, hmax, rfl⟩]
  rfl

theorem findNsec3MatchingProof_single (name : DnsName) :
    findNsec3MatchingProof [proof] name none =
      .ok (if entry.nsec3.hash entry.original = entry.nsec3.hash name then some proof else none) := by
  simp only [findNsec3MatchingProof, hasOtherParams, Option.any_none, firstMatch, Bool.false_eq_true,
    if_false, nsec3MatchesName_eq hproof hmax, Except.ok_bind]
  by_cases h : entry.nsec3.hash entry.original = entry.nsec3.hash name <;>
    simp [h, pure, Except.pure]

/-- The expected parameters are those of the proof itself. -/
theorem findNsec3CoveringProof_single (name : DnsName) :
    findNsec3CoveringProof [proof] name (some proof.nsec3) =
      .ok (if nsec3CoversHash (entry.nsec3.hash entry.original) entry.nsec3.nextHashedOwnerName
        (entry.nsec3.hash name) then some proof else none) := by
  have hparams : hasOtherParams (some proof.nsec3) proof = false := by
    simp [hasOtherParams, sameNsec3Params]
  simp only [findNsec3CoveringProof, hparams, firstMatch, Bool.false_eq_true, if_false,
    nsec3CoversName_eq hproof hmax, Except.ok_bind]
  cases nsec3CoversHash (entry.nsec3.hash entry.original) entry.nsec3.nextHashedOwnerName
    (entry.nsec3.hash name) <;> rfl

omit hmax in
theorem closestNsec3IsAuthoritative_eq :
    closestNsec3IsAuthoritative proof.nsec3 =
      .ok (if entry.bitmap.Has (RecordType.unknown 39).code then false
        else if entry.bitmap.Has RecordType.ns.code then decide (entry.bitmap.Has RecordType.soa.code)
        else true) := by
  simp only [closestNsec3IsAuthoritative, hasType_nsec3 hproof, Except.ok_bind, decide_eq_true_eq]
  split_ifs <;> rfl

omit hmax in
/-- A name without a delegation or a DNAME has a record that says so. -/
theorem closestNsec3IsAuthoritative_of_not (hchains : Nsec3Chains zone)
    (hcut : ¬zone.IsDelegation entry.original) (hdname : ¬zone.Holds entry.original dname) :
    closestNsec3IsAuthoritative proof.nsec3 = .ok true := by
  have hshows {recordType : RecordType} (hne : recordType.code ≠ RecordType.rrsig.code) :
      entry.bitmap.Has recordType.code ↔ zone.Holds entry.original recordType := by
    rw [hchains.bitmap entry hproof.mem hproof.usable, Zone.ShowsHashed,
      Zone.lists_iff_of_not_isDelegation hcut]
    exact or_iff_left fun h => hne h.1
  have hnot : ¬entry.bitmap.Has (RecordType.unknown 39).code := (hshows (by decide)).not.2 hdname
  rw [closestNsec3IsAuthoritative_eq hproof, if_neg hnot]
  by_cases hns : zone.Holds entry.original .ns
  · -- A name with NS records that is no delegation is the apex.
    have hapex : entry.original = zone.apex := not_not.1 fun hne => hcut ⟨hne, hns⟩
    have hsoa : zone.Holds entry.original .soa := by
      rw [hapex]
      exact zone.soa
    rw [if_pos ((hshows (by decide)).2 hns), decide_eq_true ((hshows (by decide)).2 hsoa)]
  · rw [if_neg ((hshows (by decide)).not.2 hns)]

section

variable
  (hsecure : validateRrsetSignature zone.apex dnskeyRrset [record] rrsigRrset now = .ok .secure)
  (hproofs : parseNsec3Proofs [record] zone.apex = .ok [proof])

include hsecure hproofs

omit hproof hmax hproofs in
theorem validateNsec3RrsetSignature_single :
    validateNsec3RrsetSignature zone.apex dnskeyRrset [record] rrsigRrset now = .ok .secure := by
  rw [validateNsec3RrsetSignature, if_neg (List.cons_ne_nil _ _), hsecure]

/-- What the record shows of a name that is tried as the closest encloser. -/
theorem validateNsec3ClosestEncloserProof_single (hbelow : name.isStrictSubdomain encloser)
    {nextCloser : DnsName} (hnext : nextCloserName name encloser = .ok nextCloser) {auth : Bool}
    (hauth : closestNsec3IsAuthoritative proof.nsec3 = .ok auth) :
    validateNsec3ClosestEncloserProof ⟨zone.apex, dnskeyRrset, name, encloser, [record], rrsigRrset,
      [record], rrsigRrset, now⟩ =
      .ok (if (entry.nsec3.hash entry.original = entry.nsec3.hash encloser ∧ auth) ∧
          nsec3CoversHash (entry.nsec3.hash entry.original) entry.nsec3.nextHashedOwnerName
            (entry.nsec3.hash nextCloser) then .valid ⟨proof, proof⟩
        else .status .bogus) := by
  simp only [validateNsec3ClosestEncloserProof, hbelow, Bool.not_true, Bool.false_eq_true, if_false,
    validateNsec3RrsetSignature_single hsecure, Except.ok_bind, ne_eq, not_true_eq_false, hproofs,
    findNsec3MatchingProof_single hproof hmax, hnext]
  by_cases hmatches : entry.nsec3.hash entry.original = entry.nsec3.hash encloser
  · cases auth with
    | false => simp [hmatches, hauth, pure, Except.pure]
    | true =>
      rw [if_pos hmatches]
      simp only [hauth, Except.ok_bind, findNsec3CoveringProof_single hproof hmax, hmatches]
      cases nsec3CoversHash (entry.nsec3.hash encloser) entry.nsec3.nextHashedOwnerName
        (entry.nsec3.hash nextCloser) <;> simp [pure, Except.pure]
  · simp [hmatches, pure, Except.pure]

/-- What the record shows of the name. -/
theorem validateNsec3NameError_single (hbelow : name.isStrictSubdomain encloser)
    {nextCloser wildcard : DnsName} (hnext : nextCloserName name encloser = .ok nextCloser)
    (hwildcard : wildcard.IsWildcardOf encloser) {auth : Bool}
    (hauth : closestNsec3IsAuthoritative proof.nsec3 = .ok auth) :
    validateNsec3NameError ⟨zone.apex, dnskeyRrset, name, encloser, [record], rrsigRrset, [record],
      rrsigRrset, [record], rrsigRrset, now⟩ =
      .ok (if (entry.nsec3.hash entry.original = entry.nsec3.hash encloser ∧ auth) ∧
          nsec3CoversHash (entry.nsec3.hash entry.original) entry.nsec3.nextHashedOwnerName
            (entry.nsec3.hash nextCloser) then
          if proof.nsec3.isOptOut then .insecureDelegation
          else if nsec3CoversHash (entry.nsec3.hash entry.original) entry.nsec3.nextHashedOwnerName
            (entry.nsec3.hash wildcard) then .secure else .bogus
        else .bogus) := by
  rw [validateNsec3NameError, validateNsec3ClosestEncloserProof_single hproof hmax hsecure hproofs
    hbelow hnext hauth, Except.ok_bind]
  by_cases hclosest : (entry.nsec3.hash entry.original = entry.nsec3.hash encloser ∧ auth) ∧
      nsec3CoversHash (entry.nsec3.hash entry.original) entry.nsec3.nextHashedOwnerName
        (entry.nsec3.hash nextCloser)
  · rw [if_pos hclosest, if_pos hclosest]
    cases hopt : proof.nsec3.isOptOut with
    | true => simp [hopt, pure, Except.pure]
    | false =>
      simp only [hopt, Bool.false_eq_true, if_false, wildcardChild_eq_ok.2 hwildcard,
        Except.ok_bind, thenIfSecure, validateNsec3RrsetSignature_single hsecure, ne_eq,
        not_true_eq_false, hproofs, findNsec3CoveringProof_single hproof hmax]
      cases nsec3CoversHash (entry.nsec3.hash entry.original) entry.nsec3.nextHashedOwnerName
        (entry.nsec3.hash wildcard)
      · rfl
      · simp [hopt, pure, Except.pure]
  · rw [if_neg hclosest, if_neg hclosest]
    rfl

/-- One record never leads to an error. -/
theorem exists_validateNsec3NameError_single (hbelow : name.isStrictSubdomain encloser) :
    ∃ status, validateNsec3NameError ⟨zone.apex, dnskeyRrset, name, encloser, [record], rrsigRrset,
      [record], rrsigRrset, [record], rrsigRrset, now⟩ = .ok status := by
  obtain ⟨wildcard, hwildcard⟩ := exists_isWildcardOf hbelow
  obtain ⟨nextCloser, hnext⟩ := exists_nextCloserName hbelow
  exact ⟨_, validateNsec3NameError_single hproof hmax hsecure hproofs hbelow hnext hwildcard
    (closestNsec3IsAuthoritative_eq hproof)⟩

end

end

end SignedZone

end Hns
