import Hns.Dns.Name

/-!
# Resource records

The resource records of `hns-core`, and the data of SVCB and HTTPS records,
which is read strictly: no compressed names, keys in increasing order, and known
parameters well formed.
-/

namespace Hns

inductive RecordType
  | a
  | ns
  | cname
  | soa
  | txt
  | aaaa
  | srv
  | ds
  | rrsig
  | nsec
  | dnskey
  | nsec3
  | tlsa
  | svcb
  | https
  | unknown (code : UInt16)
  deriving DecidableEq

namespace RecordType

def fromCode (code : UInt16) : RecordType :=
  match code.toNat with
  | 1 => .a
  | 2 => .ns
  | 5 => .cname
  | 6 => .soa
  | 16 => .txt
  | 28 => .aaaa
  | 33 => .srv
  | 43 => .ds
  | 46 => .rrsig
  | 47 => .nsec
  | 48 => .dnskey
  | 50 => .nsec3
  | 52 => .tlsa
  | 64 => .svcb
  | 65 => .https
  | _ => .unknown code

def code : RecordType → UInt16
  | .a => 1
  | .ns => 2
  | .cname => 5
  | .soa => 6
  | .txt => 16
  | .aaaa => 28
  | .srv => 33
  | .ds => 43
  | .rrsig => 46
  | .nsec => 47
  | .dnskey => 48
  | .nsec3 => 50
  | .tlsa => 52
  | .svcb => 64
  | .https => 65
  | .unknown code => code

/-- A code is kept by the type read from it. -/
@[simp] theorem code_fromCode (c : UInt16) : (fromCode c).code = c := by
  have key (n : ℕ) (h : c.toNat = n) : c = UInt16.ofNat n := by rw [← h, UInt16.ofNat_toNat]
  unfold fromCode
  split <;> first
    | rfl
    | exact (key _ ‹_›).symm

/-- A type as it is read from its code. -/
def IsKnown (t : RecordType) : Prop := fromCode t.code = t

instance : DecidablePred IsKnown := fun _ => inferInstanceAs (Decidable (_ = _))

theorem isKnown_fromCode (c : UInt16) : (fromCode c).IsKnown := by rw [IsKnown, code_fromCode]

/-- A type that is named is read from its code, and so is one that is not, unless its code is that
    of a type that is named. -/
theorem isKnown_iff {t : RecordType} :
    t.IsKnown ↔ ∀ c, t = .unknown c → fromCode c = .unknown c := by
  constructor
  · rintro h c rfl
    exact h
  · intro h
    cases t with
    | unknown c => exact h c rfl
    | _ => decide

theorem IsKnown.code_inj {t t' : RecordType} (h : t.IsKnown) (h' : t'.IsKnown)
    (heq : t.code = t'.code) : t = t' := by rw [← h, ← h', heq]

end RecordType

structure ResourceRecord where
  name : DnsName
  recordType : RecordType
  class_ : UInt16
  ttl : UInt32
  rdata : List UInt8
  deriving DecidableEq

/-! ## Service bindings -/

def svcbParamMandatory : ℕ := 0

def svcbParamAlpn : ℕ := 1

def svcbParamNoDefaultAlpn : ℕ := 2

def svcbParamPort : ℕ := 3

def svcbParamIpv4hint : ℕ := 4

def svcbParamEch : ℕ := 5

def svcbParamIpv6hint : ℕ := 6

structure SvcParam where
  key : UInt16
  value : List UInt8
  deriving DecidableEq

structure SvcbRecord where
  svcPriority : UInt16
  targetName : DnsName
  params : List SvcParam
  deriving DecidableEq

/-- The loop of `parse_uncompressed_dns_name` over the rest of the data. -/
def parseUncompressedDnsNameLoop :
    ℕ → List UInt8 → List DnsLabel → Except ParseError (DnsName × List UInt8)
  | 0, _, _ => .error .invalidSvcb
  | fuel + 1, data, labels => do
    let (length, data) ← match data with
      | [] => .error .invalidSvcb
      | length :: data => .ok (length, data)
    if length &&& 0xc0 ≠ 0 then throw .invalidSvcb
    else if length = 0 then
      let name ← Except.ofOption .lengthLimit (DnsName.ofLabels labels)
      return (name, data)
    else
      if data.length < length.toNat then throw .invalidSvcb
      let label ← Except.ofOption .invalidSvcb (DnsLabel.ofBytes (data.take length.toNat))
      parseUncompressedDnsNameLoop fuel (data.drop length.toNat) (labels ++ [label])

/-- The name at the start of the data, and what follows it. -/
def parseUncompressedDnsName (data : List UInt8) : Except ParseError (DnsName × List UInt8) :=
  parseUncompressedDnsNameLoop (data.length + 1) data []

/-- The loop of `parse_alpn_ids` over the rest of the value. -/
def parseAlpnIdsLoop : ℕ → List UInt8 → Except ParseError (List (List UInt8))
  | 0, _ => .error .invalidSvcb
  | _ + 1, [] => .ok []
  | fuel + 1, length :: value => do
    if length = 0 then throw .invalidSvcb
    if value.length < length.toNat then throw .invalidSvcb
    let ids ← parseAlpnIdsLoop fuel (value.drop length.toNat)
    return value.take length.toNat :: ids

def parseAlpnIds (value : List UInt8) : Except ParseError (List (List UInt8)) :=
  if value = [] then .error .invalidSvcb else parseAlpnIdsLoop (value.length + 1) value

/-- The loop of `validate_svc_param_value` over the keys of a `mandatory` parameter. -/
def validateMandatoryKeys : List UInt8 → Option UInt16 → Except ParseError Unit
  | a :: b :: rest, previousKey =>
    let mandatoryKey := Octet.be16 a b
    if mandatoryKey.toNat = svcbParamMandatory ∨ previousKey.any fun previous =>
        mandatoryKey ≤ previous then .error .invalidSvcb
    else validateMandatoryKeys rest (some mandatoryKey)
  | _, _ => .ok ()

def validateSvcParamValue (key : UInt16) (value : List UInt8) : Except ParseError Unit :=
  let check (valid : Bool) : Except ParseError Unit :=
    if valid then .ok () else .error .invalidSvcb
  if key.toNat = svcbParamMandatory then
    if value = [] ∨ value.length % 2 ≠ 0 then .error .invalidSvcb
    else validateMandatoryKeys value none
  else if key.toNat = svcbParamAlpn then (parseAlpnIds value).map fun _ => ()
  else if key.toNat = svcbParamNoDefaultAlpn then check (value = [])
  else if key.toNat = svcbParamPort then check (value.length = 2)
  else if key.toNat = svcbParamIpv4hint then check (value ≠ [] ∧ value.length % 4 = 0)
  else if key.toNat = svcbParamIpv6hint then check (value ≠ [] ∧ value.length % 16 = 0)
  else .ok ()

/-- The loop of `SvcbRecord::parse_rdata` over the parameters. -/
def parseSvcParams : ℕ → List UInt8 → Option UInt16 → Except ParseError (List SvcParam)
  | 0, _, _ => .error .invalidSvcb
  | _ + 1, [], _ => .ok []
  | fuel + 1, k₁ :: k₂ :: l₁ :: l₂ :: rest, previousKey => do
    let key := Octet.be16 k₁ k₂
    let length := (Octet.be16 l₁ l₂).toNat
    if previousKey.any fun previous => key ≤ previous then throw .invalidSvcb
    if rest.length < length then throw .invalidSvcb
    let value := rest.take length
    validateSvcParamValue key value
    let params ← parseSvcParams fuel (rest.drop length) (some key)
    return ⟨key, value⟩ :: params
  | _ + 1, _, _ => .error .invalidSvcb

namespace SvcbRecord

def parseRdata (rdata : List UInt8) : Except ParseError SvcbRecord :=
  match rdata with
  | p₁ :: p₂ :: rest => do
    if rest = [] then throw .invalidSvcb
    let (targetName, rest) ← parseUncompressedDnsName rest
    let params ← parseSvcParams (rest.length + 1) rest none
    return ⟨Octet.be16 p₁ p₂, targetName, params⟩
  | _ => .error .invalidSvcb

def fromRecord (record : ResourceRecord) : Except ParseError SvcbRecord :=
  if record.recordType = .svcb ∨ record.recordType = .https then parseRdata record.rdata
  else .error .invalidSvcb

end SvcbRecord

end Hns
