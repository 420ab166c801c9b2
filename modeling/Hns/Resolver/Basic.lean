import Hns.Core.HandshakeName
import Hns.Dns.Resource
import Hns.Dns.Text

/-!
# Names of the resolver

The errors of `hns-resolver`, and the names it tries as the closest encloser of
a name that is said not to exist: those above it, up to the apex of the zone
(`mem_closestEncloserCandidates`).
-/

namespace Hns

inductive ResolverError
  | proofUnavailable
  | invalidName (error : NameHashError)
  | proofNameMismatch
  | nameNotFound
  | localChainNotCurrent
  | dnssecFailed
  | invalidResource (error : ResourceError)
  | unsupportedBackend
  | noNameserverAddress
  | dnsTransport (message : String)
  | invalidDnsResponse
  | cachePoisoned
  | storage (message : String)
  deriving DecidableEq

instance : ToString ResolverError where
  toString
    | .proofUnavailable => "HNS proof is unavailable"
    | .invalidName e => "HNS name is invalid: " ++ toString e
    | .proofNameMismatch => "HNS proof payload does not match requested name"
    | .nameNotFound => "HNS name does not exist"
    | .localChainNotCurrent =>
      "local HNS chain is not current enough to determine current name state"
    | .dnssecFailed => "DNSSEC validation failed"
    | .invalidResource e => "HNS resource payload is invalid: " ++ toString e
    | .unsupportedBackend => "resolver backend is not implemented"
    | .noNameserverAddress => "HNS delegation has no usable nameserver address"
    | .dnsTransport message => "DNS transport failed: " ++ message
    | .invalidDnsResponse => "DNS response is invalid"
    | .cachePoisoned => "resolver cache lock is poisoned"
    | .storage message => "resolver storage error: " ++ message

open DnsName

def closestEncloserCandidates (queryName zoneOwner : DnsName) :
    Except ResolverError (List DnsName) :=
  let queryLabels := queryName.labels
  let zoneLabels := zoneOwner.labels
  if queryLabels.length ≤ zoneLabels.length ∨ !zoneLabels.isSuffixOf queryLabels then .ok []
  else ((List.range (queryLabels.length - zoneLabels.length)).map (· + 1)).mapM fun start =>
    (fromAscii (join (queryLabels.drop start))).mapError fun _ => .invalidDnsResponse

theorem closestEncloserCandidates_eq_ok {queryName zoneOwner : DnsName}
    (h : queryName.isStrictSubdomain zoneOwner) :
    closestEncloserCandidates queryName zoneOwner =
      .ok ((List.range (queryName.labels.length - zoneOwner.labels.length)).map fun n =>
        queryName.dropLabels (n + 1)) := by
  obtain ⟨hsuffix, hlt⟩ := isStrictSubdomain_iff.1 h
  rw [closestEncloserCandidates, if_neg, Except.mapM_eq_ok]
  · rw [List.forall₂_map_left_iff, List.forall₂_map_right_iff, List.forall₂_same]
    intro n hn
    rw [Except.mapError_eq_ok]
    exact fromAscii_join (queryName.dropLabels (n + 1))
  · rintro (hle | hnot)
    · exact absurd hlt (not_lt.2 hle)
    · rw [List.isSuffixOf_iff_suffix.2 hsuffix] at hnot
      cases hnot

/-- The names that are tried are those above the query name in the zone. -/
theorem mem_closestEncloserCandidates {queryName zoneOwner encloser : DnsName} :
    (∃ candidates, closestEncloserCandidates queryName zoneOwner = .ok candidates ∧
        encloser ∈ candidates) ↔
      queryName.isStrictSubdomain encloser ∧ encloser.isSubdomainOrEqual zoneOwner := by
  by_cases h : queryName.isStrictSubdomain zoneOwner
  · have hlt := (isStrictSubdomain_iff.1 h).2
    rw [closestEncloserCandidates_eq_ok h]
    simp only [Except.ok.injEq, exists_eq_left', List.mem_map, List.mem_range]
    constructor
    · rintro ⟨n, hn, rfl⟩
      refine ⟨isStrictSubdomain_iff.2 ⟨List.drop_suffix _ _, ?_⟩, isSubdomainOrEqual_iff.2 ?_⟩
      · rw [dropLabels, List.length_drop]
        omega
      · refine List.suffix_of_suffix_length_le (isStrictSubdomain_iff.1 h).1
          (List.drop_suffix _ _) ?_
        rw [dropLabels, List.length_drop]
        omega
    · rintro ⟨hbelow, habove⟩
      have hle := (isSubdomainOrEqual_iff.1 habove).length_le
      have hlt' := (isStrictSubdomain_iff.1 hbelow).2
      refine ⟨queryName.labels.length - encloser.labels.length - 1, by omega, ?_⟩
      rw [exists_dropLabels (isStrictSubdomain_iff_ne.1 hbelow).1]
      congr 1
      simp only [dropLabels, List.length_drop]
      omega
  · have hnil : closestEncloserCandidates queryName zoneOwner = .ok [] := by
      rw [closestEncloserCandidates, if_pos]
      rw [isStrictSubdomain_iff, not_and, not_lt] at h
      by_cases hsuffix : zoneOwner.labels <:+ queryName.labels
      · exact .inl (h hsuffix)
      · rw [← List.isSuffixOf_iff_suffix, Bool.not_eq_true] at hsuffix
        exact .inr (by rw [hsuffix]; rfl)
    rw [hnil]
    simp only [Except.ok.injEq, exists_eq_left', List.not_mem_nil, false_iff, not_and]
    intro hbelow habove
    refine h (isStrictSubdomain_iff.2 ⟨?_, ?_⟩)
    · exact (isSubdomainOrEqual_iff.1 habove).trans (isStrictSubdomain_iff.1 hbelow).1
    · exact lt_of_le_of_lt (isSubdomainOrEqual_iff.1 habove).length_le
        (isStrictSubdomain_iff.1 hbelow).2

end Hns
