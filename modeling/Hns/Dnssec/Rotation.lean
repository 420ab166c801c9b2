import Hns.Lib.Reorder
import Hns.Dnssec.Anchor

/-!
# Delegations in another order

Servers rotate the records of an RRset. The check of a delegation
(`validateDelegationLink`) searches for a key and a DS record that belong together
(`tryDelegations_eq`), and a DS record with an unknown type of digest makes the
search fail as soon as it is compared with a key it could belong to
(`Undigestible`). So the order of the records matters just where both are present
(`orderFree_iff`).
-/

namespace Hns

section

variable [Sha2] [DnssecCrypto]

/-- The search of the loops, and what its outcome means. -/
theorem tryDelegations_eq (owner : DnsName) (pairs : List (DnskeyRecord × DsRecord)) :
    tryDelegations owner pairs = (do
      if ← pairs.anyM fun pair => verifyDsDigest owner pair.1 pair.2 then return .secure
      else return .bogus) := by
  induction pairs with
  | nil => rfl
  | cons pair pairs ih =>
    rw [tryDelegations, List.anyM]
    rcases verifyDsDigest owner pair.1 pair.2 with e | _ | _
    · rfl
    · exact ih
    · rfl

/-- The DS record may belong to the key, as far as can be seen, but its type of digest is none that
    is computed. -/
def Undigestible (dnskey : DnskeyRecord) (ds : DsRecord) : Prop :=
  dnskey.flags &&& dnskeyZoneFlag ≠ 0 ∧ dnskey.algorithm = ds.algorithm ∧
    dnskey.keyTag = ds.keyTag ∧ ds.digestType ≠ dsDigestSha1 ∧ ds.digestType ≠ dsDigestSha256 ∧
    ds.digestType ≠ dsDigestSha384

theorem verifyDsDigest_eq_error {owner : DnsName} {dnskey : DnskeyRecord} {ds : DsRecord}
    {e : DnssecError} :
    verifyDsDigest owner dnskey ds = .error e ↔
      Undigestible dnskey ds ∧ e = .unsupportedDigest := by
  rw [verifyDsDigest, Undigestible]
  by_cases hflag : dnskey.flags &&& dnskeyZoneFlag = 0
  · simp [hflag, pure, Except.pure]
  by_cases hother : dnskey.algorithm ≠ ds.algorithm ∨ dnskey.keyTag ≠ ds.keyTag
  · rw [if_neg hflag, if_pos hother]
    simp only [pure, Except.pure, reduceCtorEq, false_iff]
    rintro ⟨⟨-, halgorithm, htag, -⟩, -⟩
    exact hother.elim (absurd halgorithm) (absurd htag)
  obtain ⟨halgorithm, htag⟩ := not_or.1 hother
  rw [if_neg hflag, if_neg hother, dsDigest, DnsName.encodeWire_eq_ok]
  simp only [Except.mapError, Except.ok_bind]
  by_cases h₁ : ds.digestType = dsDigestSha1
  · rw [if_pos h₁]
    simp [h₁, pure, Except.pure]
  by_cases h₂ : ds.digestType = dsDigestSha256
  · rw [if_neg h₁, if_pos h₂]
    simp [h₂, pure, Except.pure]
  by_cases h₃ : ds.digestType = dsDigestSha384
  · rw [if_neg h₁, if_neg h₂, if_pos h₃]
    simp [h₃, pure, Except.pure]
  rw [if_neg h₁, if_neg h₂, if_neg h₃]
  simp [hflag, not_not.1 halgorithm, not_not.1 htag, h₁, h₂, h₃, eq_comm, throw, throwThe,
    MonadExceptOf.throw]

/-- A key of the DNSKEY RRset matches a DS record. -/
def HasMatch (owner : DnsName) (dsRecords : List DsRecord) (dnskeys : List DnskeyRecord) : Prop :=
  ∃ dnskey ∈ dnskeys, ∃ ds ∈ dsRecords, verifyDsDigest owner dnskey ds = .ok true

/-- A DS record is compared in vain with a key. -/
def HasUndigestible (dsRecords : List DsRecord) (dnskeys : List DnskeyRecord) : Prop :=
  ∃ dnskey ∈ dnskeys, ∃ ds ∈ dsRecords, Undigestible dnskey ds

/-- The outcome is that of any order of the records, and no error if there is a match. -/
def OrderFree (owner : DnsName) (dsRrset dnskeyRrset : List ResourceRecord) : Prop :=
  (∀ dsRrset' dnskeyRrset', dsRrset'.Perm dsRrset → dnskeyRrset'.Perm dnskeyRrset →
    validateDelegationLink owner dsRrset' dnskeyRrset' =
      validateDelegationLink owner dsRrset dnskeyRrset) ∧
  ∀ dsRecords dnskeys, dsRecordsOf dsRrset = .ok dsRecords → dnskeysOf dnskeyRrset = .ok dnskeys →
    HasMatch owner dsRecords dnskeys → ∀ e, validateDelegationLink owner dsRrset dnskeyRrset ≠ .error e

/-! ## The outcome -/

section Outcome

variable {owner : DnsName} {dsRrset dnskeyRrset : List ResourceRecord} {dsRecords : List DsRecord}
  {dnskeys : List DnskeyRecord}

omit [Sha2] [DnssecCrypto] in
theorem mem_pairs {pair : DnskeyRecord × DsRecord} :
    (pair ∈ dnskeys.flatMap fun dnskey => dsRecords.map fun ds => (dnskey, ds)) ↔
      pair.1 ∈ dnskeys ∧ pair.2 ∈ dsRecords := by
  obtain ⟨dnskey, ds⟩ := pair
  simp

theorem validateDelegationLink_eq (hds : dsRecordsOf dsRrset = .ok dsRecords)
    (hkeys : dnskeysOf dnskeyRrset = .ok dnskeys) (hne : dsRecords ≠ []) :
    validateDelegationLink owner dsRrset dnskeyRrset = tryDelegations owner
      (dnskeys.flatMap fun dnskey => dsRecords.map fun ds => (dnskey, ds)) := by
  rw [validateDelegationLink, hds, Except.ok_bind, if_neg hne, hkeys, Except.ok_bind]

theorem validateDelegationLink_of_nil (hds : dsRecordsOf dsRrset = .ok []) :
    validateDelegationLink owner dsRrset dnskeyRrset = .ok .insecureDelegation := by
  rw [validateDelegationLink, hds]
  rfl

theorem validateDelegationLink_of_match (hds : dsRecordsOf dsRrset = .ok dsRecords)
    (hkeys : dnskeysOf dnskeyRrset = .ok dnskeys) (hmatch : HasMatch owner dsRecords dnskeys)
    (hnone : ¬HasUndigestible dsRecords dnskeys) :
    validateDelegationLink owner dsRrset dnskeyRrset = .ok .secure := by
  obtain ⟨dnskey, hkey, ds, hmem, hverify⟩ := hmatch
  rw [validateDelegationLink_eq hds hkeys (List.ne_nil_of_mem hmem), tryDelegations_eq,
    Except.anyM_of_exists]
  · rfl
  · intro pair hpair
    rcases h : verifyDsDigest owner pair.1 pair.2 with e | found
    · have hboth := mem_pairs.1 hpair
      exact absurd ⟨_, hboth.1, _, hboth.2, (verifyDsDigest_eq_error.1 h).1⟩ hnone
    · exact ⟨found, rfl⟩
  · exact ⟨(dnskey, ds), mem_pairs.2 ⟨hkey, hmem⟩, hverify⟩

theorem validateDelegationLink_of_undigestible (hds : dsRecordsOf dsRrset = .ok dsRecords)
    (hkeys : dnskeysOf dnskeyRrset = .ok dnskeys) (hnone : ¬HasMatch owner dsRecords dnskeys)
    (hvain : HasUndigestible dsRecords dnskeys) :
    validateDelegationLink owner dsRrset dnskeyRrset = .error .unsupportedDigest := by
  obtain ⟨dnskey, hkey, ds, hmem, hundigestible⟩ := hvain
  rw [validateDelegationLink_eq hds hkeys (List.ne_nil_of_mem hmem), tryDelegations_eq,
    @Except.anyM_of_forall_ne _ _ _ _ .unsupportedDigest]
  · rfl
  · intro pair hpair hverify
    have hboth := mem_pairs.1 hpair
    exact hnone ⟨_, hboth.1, _, hboth.2, hverify⟩
  · exact fun pair _ e h => (verifyDsDigest_eq_error.1 h).2
  · exact ⟨(dnskey, ds), mem_pairs.2 ⟨hkey, hmem⟩, verifyDsDigest_eq_error.2 ⟨hundigestible, rfl⟩⟩

theorem validateDelegationLink_of_neither (hds : dsRecordsOf dsRrset = .ok dsRecords)
    (hkeys : dnskeysOf dnskeyRrset = .ok dnskeys) (hne : dsRecords ≠ [])
    (hnone : ¬HasMatch owner dsRecords dnskeys) (hvain : ¬HasUndigestible dsRecords dnskeys) :
    validateDelegationLink owner dsRrset dnskeyRrset = .ok .bogus := by
  rw [validateDelegationLink_eq hds hkeys hne, tryDelegations_eq, Except.anyM_of_forall_false]
  · rfl
  · intro pair hpair
    have hboth := mem_pairs.1 hpair
    rcases h : verifyDsDigest owner pair.1 pair.2 with e | _ | _
    · exact absurd ⟨_, hboth.1, _, hboth.2, (verifyDsDigest_eq_error.1 h).1⟩ hvain
    · rfl
    · exact absurd ⟨_, hboth.1, _, hboth.2, h⟩ hnone

/-! ## Another order -/

theorem HasMatch.of_perm {dsRecords' : List DsRecord} {dnskeys' : List DnskeyRecord}
    (hds : dsRecords'.Perm dsRecords) (hkeys : dnskeys'.Perm dnskeys) :
    HasMatch owner dsRecords' dnskeys' ↔ HasMatch owner dsRecords dnskeys := by
  simp only [HasMatch, hds.mem_iff, hkeys.mem_iff]

omit [Sha2] [DnssecCrypto] in
theorem HasUndigestible.of_perm {dsRecords' : List DsRecord} {dnskeys' : List DnskeyRecord}
    (hds : dsRecords'.Perm dsRecords) (hkeys : dnskeys'.Perm dnskeys) :
    HasUndigestible dsRecords' dnskeys' ↔ HasUndigestible dsRecords dnskeys := by
  simp only [HasUndigestible, hds.mem_iff, hkeys.mem_iff]

/-- The order does not matter unless there are both a match and an undigestible DS record. -/
theorem validateDelegationLink_of_perm {dsRrset' dnskeyRrset' : List ResourceRecord}
    (hds : dsRecordsOf dsRrset = .ok dsRecords) (hkeys : dnskeysOf dnskeyRrset = .ok dnskeys)
    (hnot : ¬(HasMatch owner dsRecords dnskeys ∧ HasUndigestible dsRecords dnskeys))
    (hpermDs : dsRrset'.Perm dsRrset) (hpermKeys : dnskeyRrset'.Perm dnskeyRrset) :
    validateDelegationLink owner dsRrset' dnskeyRrset' =
      validateDelegationLink owner dsRrset dnskeyRrset := by
  obtain ⟨dsRecords', hds', hpermDs⟩ := Except.exists_mapM_of_perm (hpermDs.filter _) hds
  obtain ⟨dnskeys', hkeys', hpermKeys⟩ := Except.exists_mapM_of_perm (hpermKeys.filter _) hkeys
  have hmatch' := @HasMatch.of_perm _ _ owner _ _ _ _ hpermDs hpermKeys
  have hvain' := HasUndigestible.of_perm hpermDs hpermKeys
  by_cases hnil : dsRecords = []
  · obtain rfl := hnil
    obtain rfl := List.perm_nil.1 hpermDs
    rw [validateDelegationLink_of_nil hds', validateDelegationLink_of_nil hds]
  by_cases hmatch : HasMatch owner dsRecords dnskeys
  · have hvain : ¬HasUndigestible dsRecords dnskeys := fun hvain => hnot ⟨hmatch, hvain⟩
    rw [validateDelegationLink_of_match hds' hkeys' (hmatch'.2 hmatch) (mt hvain'.1 hvain),
      validateDelegationLink_of_match hds hkeys hmatch hvain]
  · by_cases hvain : HasUndigestible dsRecords dnskeys
    · rw [validateDelegationLink_of_undigestible hds' hkeys' (mt hmatch'.1 hmatch) (hvain'.2 hvain),
        validateDelegationLink_of_undigestible hds hkeys hmatch hvain]
    · have hne : dsRecords' ≠ [] := fun h => hnil (List.nil_perm.1 (h ▸ hpermDs))
      rw [validateDelegationLink_of_neither hds' hkeys' hne (mt hmatch'.1 hmatch)
          (mt hvain'.1 hvain),
        validateDelegationLink_of_neither hds hkeys hnil hmatch hvain]

/-- Any key and any DS record may be compared first. -/
theorem exists_first {dnskey : DnskeyRecord} {ds : DsRecord}
    (hds : dsRecordsOf dsRrset = .ok dsRecords) (hkeys : dnskeysOf dnskeyRrset = .ok dnskeys)
    (hmem : ds ∈ dsRecords) (hkey : dnskey ∈ dnskeys) :
    ∃ dsRrset' dnskeyRrset', dsRrset'.Perm dsRrset ∧ dnskeyRrset'.Perm dnskeyRrset ∧
      ∃ pairs, validateDelegationLink owner dsRrset' dnskeyRrset' =
        tryDelegations owner ((dnskey, ds) :: pairs) := by
  obtain ⟨dsRrset', hpermDs, moreDs, hds'⟩ := Except.exists_mapM_cons_of_mem hds hmem
  obtain ⟨dnskeyRrset', hpermKeys, moreKeys, hkeys'⟩ := Except.exists_mapM_cons_of_mem hkeys hkey
  exact ⟨dsRrset', dnskeyRrset', hpermDs, hpermKeys, _,
    validateDelegationLink_eq hds' hkeys' (List.cons_ne_nil _ _)⟩

end Outcome

/-- For records that can be read, the outcome is that of any order, and no error beside a match, just
    if no DS record of an unknown type of digest could belong to a key, or no DS record does belong
    to one. -/
theorem orderFree_iff {owner : DnsName} {dsRrset dnskeyRrset : List ResourceRecord}
    {dsRecords : List DsRecord} {dnskeys : List DnskeyRecord}
    (hds : dsRecordsOf dsRrset = .ok dsRecords) (hkeys : dnskeysOf dnskeyRrset = .ok dnskeys) :
    OrderFree owner dsRrset dnskeyRrset ↔
      ¬HasUndigestible dsRecords dnskeys ∨ ¬HasMatch owner dsRecords dnskeys := by
  rw [← not_and_or, and_comm]
  constructor
  · rintro ⟨hfree, -⟩ ⟨⟨key, hkey, d, hd, hverify⟩, key', hkey', d', hd', hundigestible⟩
    -- The match comes first in one order, the undigestible record in another one.
    obtain ⟨ds₁, keys₁, hds₁, hkeys₁, pairs₁, h₁⟩ :=
      @exists_first _ _ owner _ _ _ _ _ _ hds hkeys hd hkey
    obtain ⟨ds₂, keys₂, hds₂, hkeys₂, pairs₂, h₂⟩ :=
      @exists_first _ _ owner _ _ _ _ _ _ hds hkeys hd' hkey'
    have hsame := (hfree ds₁ keys₁ hds₁ hkeys₁).trans (hfree ds₂ keys₂ hds₂ hkeys₂).symm
    rw [h₁, h₂, tryDelegations, tryDelegations, hverify,
      (@verifyDsDigest_eq_error _ _ owner _ _ _).2 ⟨hundigestible, rfl⟩] at hsame
    cases hsame
  · intro hnot
    refine ⟨fun ds' keys' => validateDelegationLink_of_perm hds hkeys hnot, ?_⟩
    intro dsRecords' dnskeys' hds' hkeys' hmatch e
    obtain rfl := Except.ok.inj (hds.symm.trans hds')
    obtain rfl := Except.ok.inj (hkeys.symm.trans hkeys')
    rw [validateDelegationLink_of_match hds hkeys hmatch fun hvain => hnot ⟨hmatch, hvain⟩]
    rintro ⟨⟩

end

/-! ## A type of digest that is not known -/

namespace RotationSample

open SplitSample

/-- The DS record of the published key, with SHA-256. -/
def known : ResourceRecord := record .ds ([0xed, 0x7b, 15, 2] ++ digest.bytes)

/-- Another DS record of that key, with GOST R 34.11-94. -/
def unknown : ResourceRecord := record .ds [0xed, 0x7b, 15, 3, 1]

def keys : List ResourceRecord := [record .dnskey publishedKey]

theorem dnskeysOf_keys : dnskeysOf keys = .ok [dnskey 0x0101 publishedKey] := by decide +kernel

/-- The same zone is secure with its DS records in one order, and an error in the other one. -/
theorem not_orderFree :
    (dsRecordsOf [known, unknown]).isOk ∧ dnskeysOf keys = .ok [dnskey 0x0101 publishedKey] ∧
      verifyDsDigest owner (dnskey 0x0101 publishedKey) ⟨0xed7b, 15, 2, digest.bytes⟩ = .ok true ∧
      [unknown, known].Perm [known, unknown] ∧
      validateDelegationLink owner [known, unknown] keys = .ok .secure ∧
      validateDelegationLink owner [unknown, known] keys = .error .unsupportedDigest ∧
      ¬OrderFree owner [known, unknown] keys := by
  have hsecure : validateDelegationLink owner [known, unknown] keys = .ok .secure := by
    decide +kernel
  have herror : validateDelegationLink owner [unknown, known] keys = .error .unsupportedDigest := by
    decide +kernel
  refine ⟨by decide +kernel, dnskeysOf_keys, by decide +kernel, .swap _ _ _, hsecure, herror,
    fun h => ?_⟩
  have hsame := h.1 _ _ (.swap _ _ _) (.refl keys)
  rw [herror, hsecure] at hsame
  cases hsame

/-- Without the unknown record, any order will do. -/
theorem orderFree_known : (dsRecordsOf [known]).isOk ∧ OrderFree owner [known] keys := by
  have hds : dsRecordsOf [known] = .ok [⟨0xed7b, 15, 2, digest.bytes⟩] := by decide +kernel
  refine ⟨by decide +kernel, (orderFree_iff hds dnskeysOf_keys).2 (.inl ?_)⟩
  rintro ⟨key, -, ds, hds, -, -, -, -, htype, -⟩
  obtain rfl := List.mem_singleton.1 hds
  exact htype rfl

end RotationSample

end Hns
