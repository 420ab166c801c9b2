import Hns.Dnssec.Conforming

/-!
# Service records

The data of SVCB and HTTPS records as RFC 9460 has them (`IsService`): a priority, a name without
pointers, and parameters of increasing keys with well-formed values (`IsParamValue`), among them all
that are mandatory (`MandatoryPresent`). `SvcbRecord::parse_rdata` accepts the ones of these fields
whatever is mandatory, but for names of 255 octets, the longest that there are
(`exists_parseRdata_iff`); what is parsed is written again as it was, with the name in lower case
(`encode_of_parseRdata`).
-/

namespace Hns

/-! ## Values of parameters -/

/-- The values of a parameter (RFC 9460, sections 7 and 8). -/
def IsParamValue (key : UInt16) (value : List UInt8) : Prop :=
  if key.toNat = svcbParamMandatory then
    ∃ keys : List UInt16, keys ≠ [] ∧ (∀ key ∈ keys, key.toNat ≠ svcbParamMandatory) ∧
      keys.Pairwise (· < ·) ∧ value = keys.flatMap UInt16.toBE
  else if key.toNat = svcbParamAlpn then
    ∃ ids : List (List UInt8), ids ≠ [] ∧ (∀ id ∈ ids, 0 < id.length ∧ id.length < 256) ∧
      value = ids.flatMap fun id => UInt8.ofNat id.length :: id
  else if key.toNat = svcbParamNoDefaultAlpn then value = []
  else if key.toNat = svcbParamPort then ∃ port : UInt16, value = port.toBE
  else if key.toNat = svcbParamIpv4hint then value ≠ [] ∧ 4 ∣ value.length
  else if key.toNat = svcbParamIpv6hint then value ≠ [] ∧ 16 ∣ value.length
  else True

/-- A key is compared with the one before it only. -/
theorem isChain_toList_append_cons {previousKey : Option UInt16} {key : UInt16}
    {keys : List UInt16} :
    (previousKey.toList ++ key :: keys).IsChain (· < ·) ↔
      ¬(previousKey.any fun previous => key ≤ previous) ∧
        ((some key).toList ++ keys).IsChain (· < ·) := by
  cases previousKey with
  | none => simp
  | some previous => simp [List.isChain_cons_cons]

theorem validateMandatoryKeys_flatMap_eq_ok {keys : List UInt16} {previousKey : Option UInt16} :
    validateMandatoryKeys (keys.flatMap UInt16.toBE) previousKey = .ok () ↔
      (∀ key ∈ keys, key.toNat ≠ svcbParamMandatory) ∧
        (previousKey.toList ++ keys).IsChain (· < ·) := by
  induction keys generalizing previousKey with
  | nil => cases previousKey <;> simp [validateMandatoryKeys]
  | cons key keys ih =>
    obtain ⟨a, b, hkey, hread⟩ := Octet.exists_toBE16 key
    rw [List.flatMap_cons, hkey, List.cons_append, List.cons_append, List.nil_append,
      validateMandatoryKeys, hread, isChain_toList_append_cons, List.forall_mem_cons]
    split
    case isTrue hwrong =>
      refine iff_of_false (by simp) ?_
      rintro ⟨⟨hmandatory, -⟩, hnext, -⟩
      exact hwrong.elim hmandatory hnext
    case isFalse hright =>
      rw [not_or] at hright
      rw [ih]
      tauto

theorem exists_keys {value : List UInt8} (heven : value.length % 2 = 0) :
    ∃ keys : List UInt16, value = keys.flatMap UInt16.toBE := by
  obtain ⟨count, hcount⟩ := Nat.dvd_of_mod_eq_zero heven
  induction count generalizing value with
  | zero => exact ⟨[], List.length_eq_zero_iff.1 hcount⟩
  | succ count ih =>
    match value, hcount with
    | a :: b :: rest, hcount =>
      have hrest : rest.length = 2 * count := by
        simp only [List.length_cons] at hcount
        omega
      obtain ⟨keys, rfl⟩ := ih (by rw [hrest, Nat.mul_mod_right]) hrest
      exact ⟨Octet.be16 a b :: keys, by rw [List.flatMap_cons, Octet.toBE_be16]; rfl⟩

theorem length_flatMap_toBE (keys : List UInt16) :
    (keys.flatMap UInt16.toBE).length = 2 * keys.length := by
  induction keys with
  | nil => rfl
  | cons key keys ih =>
    rw [List.flatMap_cons, List.length_append, ih, Octet.length_toBE16, List.length_cons]
    omega

/-- The identifiers are those of a list, each with its length. -/
theorem parseAlpnIdsLoop_eq_ok {fuel : ℕ} {value : List UInt8} {ids : List (List UInt8)}
    (h : parseAlpnIdsLoop fuel value = .ok ids) :
    (∀ id ∈ ids, 0 < id.length ∧ id.length < 256) ∧
      value = ids.flatMap fun id => UInt8.ofNat id.length :: id := by
  induction fuel generalizing value ids with
  | zero => cases h
  | succ fuel ih =>
    cases value with
    | nil =>
      cases h
      exact ⟨by simp, rfl⟩
    | cons length value =>
      rw [parseAlpnIdsLoop] at h
      obtain ⟨hpos, h⟩ := Except.throw_unless.1 h
      obtain ⟨hfits, h⟩ := Except.throw_unless.1 h
      obtain ⟨ids, hids, h⟩ := Except.bind_eq_ok.1 h
      cases h
      obtain ⟨hsizes, hvalue⟩ := ih hids
      have hlength : (value.take length.toNat).length = length.toNat := by
        rw [List.length_take, Nat.min_eq_left (not_lt.1 hfits)]
      refine ⟨List.forall_mem_cons.2 ⟨?_, hsizes⟩, ?_⟩
      · rw [hlength]
        exact ⟨Nat.pos_of_ne_zero fun hzero => hpos (UInt8.toNat_inj.1 hzero), length.toNat_lt⟩
      · rw [List.flatMap_cons, hlength, UInt8.ofNat_toNat, ← hvalue, List.cons_append,
          List.take_append_drop]

theorem parseAlpnIdsLoop_flatMap {ids : List (List UInt8)}
    (hsizes : ∀ id ∈ ids, 0 < id.length ∧ id.length < 256) {fuel : ℕ}
    (hfuel : (ids.flatMap fun id => UInt8.ofNat id.length :: id).length < fuel) :
    parseAlpnIdsLoop fuel (ids.flatMap fun id => UInt8.ofNat id.length :: id) = .ok ids := by
  induction ids generalizing fuel with
  | nil =>
    obtain ⟨fuel, rfl⟩ := Nat.exists_eq_add_of_lt hfuel
    rfl
  | cons id ids ih =>
    obtain ⟨⟨hpos, hlt⟩, hsizes⟩ := List.forall_mem_cons.1 hsizes
    obtain ⟨fuel, rfl⟩ := Nat.exists_eq_add_of_lt hfuel
    have hlength : (UInt8.ofNat id.length).toNat = id.length := UInt8.toNat_ofNat_of_lt' hlt
    have hne : UInt8.ofNat id.length ≠ 0 := by
      intro hzero
      rw [hzero] at hlength
      exact absurd hlength hpos.ne
    rw [List.flatMap_cons, List.length_append, List.length_cons] at hfuel ⊢
    rw [List.cons_append, parseAlpnIdsLoop, hlength, List.take_left, List.drop_left]
    refine Except.throw_unless.2 ⟨hne, Except.throw_unless.2 ⟨?_, ?_⟩⟩
    · rw [List.length_append]
      omega
    · rw [ih hsizes (by omega)]
      rfl

theorem isOk_parseAlpnIds {value : List UInt8} :
    (∃ ids, parseAlpnIds value = .ok ids) ↔
      ∃ ids : List (List UInt8), ids ≠ [] ∧ (∀ id ∈ ids, 0 < id.length ∧ id.length < 256) ∧
        value = ids.flatMap fun id => UInt8.ofNat id.length :: id := by
  rw [parseAlpnIds]
  split
  case isTrue hnil =>
    refine iff_of_false (by simp) ?_
    rintro ⟨ids, hne, -, rfl⟩
    obtain ⟨id, ids, rfl⟩ := List.exists_cons_of_ne_nil hne
    exact List.cons_ne_nil _ _ hnil
  case isFalse hne =>
    constructor
    · rintro ⟨ids, hids⟩
      obtain ⟨hsizes, hvalue⟩ := parseAlpnIdsLoop_eq_ok hids
      refine ⟨ids, ?_, hsizes, hvalue⟩
      rintro rfl
      exact hne hvalue
    · rintro ⟨ids, -, hsizes, rfl⟩
      exact ⟨ids, parseAlpnIdsLoop_flatMap hsizes (Nat.lt_succ_self _)⟩

theorem validateMandatory_eq_ok {value : List UInt8} :
    (if value = [] ∨ value.length % 2 ≠ 0 then .error ParseError.invalidSvcb
      else validateMandatoryKeys value none) = .ok () ↔
      ∃ keys : List UInt16, keys ≠ [] ∧ (∀ key ∈ keys, key.toNat ≠ svcbParamMandatory) ∧
        keys.Pairwise (· < ·) ∧ value = keys.flatMap UInt16.toBE := by
  have hkeys (keys : List UInt16) : validateMandatoryKeys (keys.flatMap UInt16.toBE) none = .ok () ↔
      (∀ key ∈ keys, key.toNat ≠ svcbParamMandatory) ∧ keys.Pairwise (· < ·) := by
    rw [validateMandatoryKeys_flatMap_eq_ok, Option.toList_none, List.nil_append,
      List.isChain_iff_pairwise]
  constructor
  · intro h
    split at h
    case isTrue => cases h
    case isFalse hvalue =>
      rw [not_or, not_not] at hvalue
      obtain ⟨keys, rfl⟩ := exists_keys hvalue.2
      obtain ⟨hmandatory, hsorted⟩ := (hkeys keys).1 h
      refine ⟨keys, ?_, hmandatory, hsorted, rfl⟩
      rintro rfl
      exact hvalue.1 rfl
  · rintro ⟨keys, hne, hmandatory, hsorted, rfl⟩
    have hlength := length_flatMap_toBE keys
    have hpos := List.length_pos_iff.2 hne
    rw [if_neg, hkeys]
    · exact ⟨hmandatory, hsorted⟩
    · rw [← List.length_eq_zero_iff]
      omega

/-- The values that are accepted are the well-formed ones. -/
theorem validateSvcParamValue_eq_ok {key : UInt16} {value : List UInt8} :
    validateSvcParamValue key value = .ok () ↔ IsParamValue key value := by
  have hcheck (valid : Bool) :
      (if valid then .ok () else .error .invalidSvcb : Except ParseError Unit) = .ok () ↔ valid := by
    cases valid <;> simp
  rw [validateSvcParamValue, IsParamValue]
  by_cases hmandatory : key.toNat = svcbParamMandatory
  · rw [if_pos hmandatory, if_pos hmandatory]
    exact validateMandatory_eq_ok
  rw [if_neg hmandatory, if_neg hmandatory]
  by_cases halpn : key.toNat = svcbParamAlpn
  · rw [if_pos halpn, if_pos halpn, ← isOk_parseAlpnIds]
    cases parseAlpnIds value <;> simp [Except.map]
  rw [if_neg halpn, if_neg halpn]
  by_cases hnoDefault : key.toNat = svcbParamNoDefaultAlpn
  · rw [if_pos hnoDefault, if_pos hnoDefault]
    exact (hcheck _).trans decide_eq_true_iff
  rw [if_neg hnoDefault, if_neg hnoDefault]
  by_cases hport : key.toNat = svcbParamPort
  · rw [if_pos hport, if_pos hport]
    refine ((hcheck _).trans decide_eq_true_iff).trans ⟨fun hlength => ?_, ?_⟩
    · obtain ⟨a, b, rfl⟩ := List.length_eq_two.1 hlength
      exact ⟨Octet.be16 a b, (Octet.toBE_be16 a b).symm⟩
    · rintro ⟨port, rfl⟩
      exact Octet.length_toBE16 port
  rw [if_neg hport, if_neg hport]
  by_cases hipv4 : key.toNat = svcbParamIpv4hint
  · rw [if_pos hipv4, if_pos hipv4, Nat.dvd_iff_mod_eq_zero]
    exact (hcheck _).trans decide_eq_true_iff
  rw [if_neg hipv4, if_neg hipv4]
  by_cases hipv6 : key.toNat = svcbParamIpv6hint
  · rw [if_pos hipv6, if_pos hipv6, Nat.dvd_iff_mod_eq_zero]
    exact (hcheck _).trans decide_eq_true_iff
  rw [if_neg hipv6, if_neg hipv6]
  exact iff_of_true rfl trivial

/-! ## Parameters -/

/-- A parameter as it is written. -/
def SvcParam.wire (param : SvcParam) : List UInt8 :=
  param.key.toBE ++ (UInt16.ofNat param.value.length).toBE ++ param.value

/-- Parameters of increasing keys with well-formed values. -/
structure AreParams (params : List SvcParam) : Prop where
  lengths : ∀ param ∈ params, param.value.length < 65536
  sorted : params.Pairwise fun a b => a.key < b.key
  values : ∀ param ∈ params, IsParamValue param.key param.value

theorem parseSvcParams_eq_ok {fuel : ℕ} {data : List UInt8} {previousKey : Option UInt16}
    {params : List SvcParam} (h : parseSvcParams fuel data previousKey = .ok params) :
    (∀ param ∈ params, param.value.length < 65536) ∧
      (previousKey.toList ++ params.map SvcParam.key).IsChain (· < ·) ∧
      ∀ param ∈ params, IsParamValue param.key param.value := by
  induction fuel generalizing data previousKey params with
  | zero => cases h
  | succ fuel ih =>
    match data, h with
    | [], h =>
      cases h
      cases previousKey <;> simp
    | [_], h => cases h
    | [_, _], h => cases h
    | [_, _, _], h => cases h
    | k₁ :: k₂ :: l₁ :: l₂ :: rest, h =>
      rw [parseSvcParams] at h
      obtain ⟨hkey, h⟩ := Except.throw_unless.1 h
      obtain ⟨hfits, h⟩ := Except.throw_unless.1 h
      obtain ⟨⟨⟩, hvalue, h⟩ := Except.bind_eq_ok.1 h
      obtain ⟨params, hparams, h⟩ := Except.bind_eq_ok.1 h
      cases h
      obtain ⟨hlengths, hchain, hvalues⟩ := ih hparams
      refine ⟨List.forall_mem_cons.2 ⟨?_, hlengths⟩, ?_,
        List.forall_mem_cons.2 ⟨validateSvcParamValue_eq_ok.1 hvalue, hvalues⟩⟩
      · exact Nat.lt_of_le_of_lt (List.length_take_le _ _) (Octet.be16 l₁ l₂).toNat_lt
      · rw [List.map_cons, isChain_toList_append_cons]
        exact ⟨hkey, hchain⟩

theorem parseSvcParams_wire {params : List SvcParam}
    (hlengths : ∀ param ∈ params, param.value.length < 65536) {previousKey : Option UInt16}
    (hchain : (previousKey.toList ++ params.map SvcParam.key).IsChain (· < ·))
    (hvalues : ∀ param ∈ params, IsParamValue param.key param.value) {fuel : ℕ}
    (hfuel : (params.flatMap SvcParam.wire).length < fuel) :
    parseSvcParams fuel (params.flatMap SvcParam.wire) previousKey = .ok params := by
  induction params generalizing previousKey fuel with
  | nil =>
    obtain ⟨fuel, rfl⟩ := Nat.exists_eq_add_of_lt hfuel
    rfl
  | cons param params ih =>
    obtain ⟨key, value⟩ := param
    obtain ⟨hlength, hlengths⟩ := List.forall_mem_cons.1 hlengths
    obtain ⟨hvalue, hvalues⟩ := List.forall_mem_cons.1 hvalues
    rw [List.map_cons, isChain_toList_append_cons] at hchain
    obtain ⟨fuel, rfl⟩ := Nat.exists_eq_add_of_lt hfuel
    obtain ⟨k₁, k₂, hkey, hreadKey⟩ := Octet.exists_toBE16 key
    obtain ⟨l₁, l₂, hsize, hreadSize⟩ := Octet.exists_toBE16 (UInt16.ofNat value.length)
    have hread : (Octet.be16 l₁ l₂).toNat = value.length := by
      rw [hreadSize]
      exact UInt16.toNat_ofNat_of_lt' hlength
    have hwire : (⟨key, value⟩ : SvcParam).wire = k₁ :: k₂ :: l₁ :: l₂ :: value := by
      rw [SvcParam.wire, hkey, hsize]
      rfl
    rw [List.flatMap_cons, hwire, List.length_append, List.length_cons] at hfuel ⊢
    simp only [List.cons_append]
    rw [parseSvcParams, hread, hreadKey, List.take_left, List.drop_left]
    refine Except.throw_unless.2 ⟨hchain.1, Except.throw_unless.2 ⟨?_, ?_⟩⟩
    · rw [List.length_append]
      omega
    · refine Except.bind_eq_ok.2 ⟨(), validateSvcParamValue_eq_ok.2 hvalue, ?_⟩
      rw [ih hlengths hchain.2 hvalues (by omega)]
      rfl

/-- The parameters that are accepted, as they are written. -/
theorem parseSvcParams_eq_ok_iff {data : List UInt8} {params : List SvcParam} :
    parseSvcParams (data.length + 1) data none = .ok params ↔
      AreParams params ∧ params.flatMap SvcParam.wire = data := by
  have hsorted : ((none : Option UInt16).toList ++ params.map SvcParam.key).IsChain (· < ·) ↔
      params.Pairwise fun a b => a.key < b.key := by
    rw [Option.toList_none, List.nil_append, List.isChain_iff_pairwise, List.pairwise_map]
  constructor
  · intro h
    obtain ⟨hlengths, hchain, hvalues⟩ := parseSvcParams_eq_ok h
    exact ⟨⟨hlengths, hsorted.1 hchain, hvalues⟩, flatMap_of_parseSvcParams h⟩
  · rintro ⟨h, rfl⟩
    exact parseSvcParams_wire h.lengths (hsorted.2 h.sorted) h.values (Nat.lt_succ_self _)

/-! ## Names -/

/-- The octets of a label. -/
theorem DnsLabel.of_ofBytes {bytes : List UInt8} {label : DnsLabel} (h : ofBytes bytes = some label) :
    0 < bytes.length ∧ bytes.length ≤ maxDnsLabelLen ∧ isValidDnsLabel bytes := by
  rw [ofBytes] at h
  split at h
  case isTrue hlabel => exact hlabel
  case isFalse => cases h

/-- A name that is read is one without pointers, of labels that are allowed. -/
theorem exists_raw_of_parseUncompressedDnsNameLoop {fuel : ℕ} {data rest : List UInt8}
    {before : List DnsLabel} {name : DnsName}
    (h : parseUncompressedDnsNameLoop fuel data before = .ok (name, rest)) :
    ∃ (raws : List RawLabel) (labels : List DnsLabel),
      List.Forall₂ (fun raw label => DnsLabel.ofBytes raw.bytes = some label) raws labels ∧
      data = raws.flatMap RawLabel.wire ++ [0] ++ rest ∧ name.labels = before ++ labels := by
  induction fuel generalizing data before with
  | zero => cases h
  | succ fuel ih =>
    cases data with
    | nil => cases h
    | cons length data =>
      rw [parseUncompressedDnsNameLoop, Except.ok_bind] at h
      dsimp only at h
      split at h
      case isTrue => cases h
      case isFalse =>
        split at h
        case isTrue hzero =>
          obtain ⟨read, hread, h⟩ := Except.bind_eq_ok.1 h
          cases h
          have hname := DnsName.ofLabels_eq_some.1 (Except.ofOption_eq_ok.1 hread)
          exact ⟨[], [], .nil, by rw [hzero]; rfl, by rw [hname, List.append_nil]⟩
        case isFalse hne =>
          obtain ⟨hfits, h⟩ := Except.throw_unless.1 h
          obtain ⟨label, hlabel, h⟩ := Except.bind_eq_ok.1 h
          obtain ⟨raws, labels, hreads, hdata, hlabels⟩ := ih h
          have hlength : (data.take length.toNat).length = length.toNat := by
            rw [List.length_take, Nat.min_eq_left (not_lt.1 hfits)]
          obtain ⟨hpos, hle, -⟩ := DnsLabel.of_ofBytes (Except.ofOption_eq_ok.1 hlabel)
          refine ⟨⟨data.take length.toNat, hpos, hle⟩ :: raws, label :: labels,
            .cons (Except.ofOption_eq_ok.1 hlabel) hreads, ?_, ?_⟩
          · rw [List.flatMap_cons, RawLabel.wire, hlength, UInt8.ofNat_toNat, List.cons_append,
              List.cons_append, List.cons_append, List.append_assoc, List.append_assoc,
              ← List.append_assoc (raws.flatMap RawLabel.wire), ← hdata, List.take_append_drop]
          · rw [hlabels, List.append_assoc]
            rfl

theorem labelsLen_of_reads {raws : List RawLabel} {labels : List DnsLabel}
    (h : List.Forall₂ (fun raw label => DnsLabel.ofBytes raw.bytes = some label) raws labels) :
    labelsLen labels = (raws.flatMap RawLabel.wire).length := by
  induction h with
  | nil => rfl
  | cons hlabel _ ih =>
    rw [labelsLen_cons, ih, RawName.bytes_of_ofBytes hlabel, List.length_map, List.flatMap_cons,
      List.length_append, RawLabel.wire, List.length_cons]

/-! ## Service records -/

/-- The fields of a service record, with the name as it is written. -/
structure ServiceFields where
  svcPriority : UInt16
  targetName : RawName
  params : List SvcParam
  valid : ∀ label ∈ targetName.labels, isValidDnsLabel label.bytes
  areParams : AreParams params

/-- Every key that a mandatory parameter lists is that of a parameter. -/
def MandatoryPresent (params : List SvcParam) : Prop :=
  ∀ param ∈ params, param.key.toNat = svcbParamMandatory → ∀ keys : List UInt16,
    param.value = keys.flatMap UInt16.toBE → ∀ key ∈ keys, ∃ other ∈ params, other.key = key

namespace ServiceFields

def wire (fields : ServiceFields) : List UInt8 :=
  fields.svcPriority.toBE ++ (fields.targetName.wire ++ fields.params.flatMap SvcParam.wire)

/-- The name in lower case. -/
def lower (fields : ServiceFields) : ServiceFields where
  svcPriority := fields.svcPriority
  targetName := fields.targetName.lower
  params := fields.params
  valid := by
    intro label hlabel
    obtain ⟨raw, hraw, rfl⟩ := List.mem_map.1 hlabel
    exact isValidDnsLabel_map (fields.valid raw hraw)
  areParams := fields.areParams

variable (fields : ServiceFields)

theorem parseRdata_wire : SvcbRecord.parseRdata fields.wire =
    (parseUncompressedDnsName (fields.targetName.wire ++ fields.params.flatMap SvcParam.wire)) >>=
      fun (targetName, rest) => (parseSvcParams (rest.length + 1) rest none) >>= fun params =>
        .ok ⟨fields.svcPriority, targetName, params⟩ := by
  obtain ⟨p₁, p₂, hpriority, hread⟩ := Octet.exists_toBE16 fields.svcPriority
  have hne : fields.targetName.wire ++ fields.params.flatMap SvcParam.wire ≠ [] := by
    simp [RawName.wire]
  rw [wire, hpriority, List.cons_append, List.cons_append, List.nil_append, SvcbRecord.parseRdata,
    hread, if_neg hne]
  rfl

/-- A name that is short enough is read. -/
theorem parseRdata_of_lt (h : fields.targetName.wire.length < 255) : ∃ read : DnsName,
    SvcbRecord.parseRdata fields.wire = .ok ⟨fields.svcPriority, read, fields.params⟩ ∧
      DnsName.wire read.labels = fields.targetName.lower.wire := by
  have hlength : (fields.targetName.labels.flatMap RawLabel.wire).length ≤ maxDnsNameLen := by
    rw [RawName.wire, List.length_append] at h
    exact Nat.le_of_lt_succ (Nat.lt_of_succ_lt_succ h)
  obtain ⟨read, hread, hwire⟩ := RawName.exists_reads ⟨fields.valid, hlength⟩
  refine ⟨read, ?_, hwire⟩
  rw [parseRdata_wire, hread.parseUncompressed, Except.ok_bind]
  dsimp only
  rw [parseSvcParams_eq_ok_iff.2 ⟨fields.areParams, rfl⟩]
  rfl

/-- The longest name is not. -/
theorem parseRdata_of_eq (h : fields.targetName.wire.length = 255) :
    SvcbRecord.parseRdata fields.wire = .error .lengthLimit := by
  obtain ⟨labels, hreads, -, hlength⟩ := RawName.exists_labels fields.valid
  have hlong : DnsName.ofLabels labels = none := by
    rw [RawName.wire, List.length_append] at h
    rw [DnsName.ofLabels, dif_neg]
    rw [hlength, maxDnsNameLen]
    have hlast : [(0 : UInt8)].length = 1 := rfl
    omega
  rw [parseRdata_wire, RawName.wire, RawName.parseUncompressedDnsName_wire hreads, hlong]
  rfl

end ServiceFields

/-- What is parsed are the fields that are written. -/
theorem exists_fields {rdata : List UInt8} {svcb : SvcbRecord}
    (h : SvcbRecord.parseRdata rdata = .ok svcb) : ∃ fields : ServiceFields,
      fields.wire = rdata ∧ fields.targetName.wire.length < 255 := by
  rw [SvcbRecord.parseRdata.eq_def] at h
  split at h
  case h_1 p₁ p₂ rest =>
    obtain ⟨-, h⟩ := Except.throw_unless.1 h
    obtain ⟨⟨name, rest⟩, hname, h⟩ := Except.bind_eq_ok.1 h
    obtain ⟨params, hparams, h⟩ := Except.bind_eq_ok.1 h
    obtain ⟨raws, labels, hreads, hdata, hlabels⟩ :=
      exists_raw_of_parseUncompressedDnsNameLoop hname
    obtain ⟨hareParams, hwire⟩ := parseSvcParams_eq_ok_iff.1 hparams
    have hlength : (raws.flatMap RawLabel.wire).length ≤ maxDnsNameLen := by
      rw [← labelsLen_of_reads hreads, ← List.nil_append labels, ← hlabels]
      exact name.length_le
    have hvalid : ∀ raw ∈ raws, isValidDnsLabel raw.bytes := by
      intro raw hraw
      obtain ⟨label, -, hlabel⟩ := hreads.exists_right raw hraw
      exact (DnsLabel.of_ofBytes hlabel).2.2
    refine ⟨⟨Octet.be16 p₁ p₂, ⟨raws, ?_⟩, params, hvalid, hareParams⟩, ?_, ?_⟩
    · exact Nat.le_trans (Nat.succ_le_succ hlength) (by decide)
    · rw [ServiceFields.wire, Octet.toBE_be16, hwire, hdata]
      rfl
    · rw [RawName.wire, List.length_append]
      exact Nat.lt_of_le_of_lt (Nat.succ_le_succ hlength) (by decide)
  case h_2 => cases h

/-- The data of a service record. -/
def IsService (rdata : List UInt8) : Prop :=
  ∃ fields : ServiceFields, fields.wire = rdata ∧ MandatoryPresent fields.params

theorem ServiceFields.length_wire_le (fields : ServiceFields) :
    fields.targetName.wire.length ≤ 255 := by
  rw [RawName.wire, List.length_append]
  exact fields.targetName.length_le

/-- A parameter that is mandatory is missing, or the name is as long as names can be. -/
def IsMisjudged (rdata : List UInt8) : Prop :=
  ∃ fields : ServiceFields, fields.wire = rdata ∧
    (fields.targetName.wire.length < 255 ∧ ¬MandatoryPresent fields.params ∨
      fields.targetName.wire.length = 255 ∧ MandatoryPresent fields.params)

/-- The parameters of data that are accepted are those of any fields with these data. -/
theorem ServiceFields.params_eq {fields fields' : ServiceFields}
    (h : fields.targetName.wire.length < 255) (hwire : fields'.wire = fields.wire) :
    fields'.params = fields.params := by
  obtain ⟨read, hparse, -⟩ := fields.parseRdata_of_lt h
  rcases Nat.lt_or_eq_of_le fields'.length_wire_le with hshort | hlong
  · obtain ⟨read', hparse', -⟩ := fields'.parseRdata_of_lt hshort
    rw [hwire, hparse] at hparse'
    exact (congrArg SvcbRecord.params (Except.ok.inj hparse')).symm
  · have herror := fields'.parseRdata_of_eq hlong
    rw [hwire, hparse] at herror
    cases herror

/-- The data that are accepted are those of service records, unless they are misjudged. -/
theorem exists_parseRdata_iff (rdata : List UInt8) :
    ((∃ svcb, SvcbRecord.parseRdata rdata = .ok svcb) ↔ IsService rdata) ↔ ¬IsMisjudged rdata := by
  constructor
  · rintro h ⟨fields, rfl, ⟨hshort, hmissing⟩ | ⟨hlong, hpresent⟩⟩
    · obtain ⟨read, hparse, -⟩ := fields.parseRdata_of_lt hshort
      obtain ⟨fields', hwire, hpresent⟩ := h.1 ⟨_, hparse⟩
      rw [ServiceFields.params_eq hshort hwire] at hpresent
      exact hmissing hpresent
    · obtain ⟨svcb, hparse⟩ := h.2 ⟨fields, rfl, hpresent⟩
      rw [fields.parseRdata_of_eq hlong] at hparse
      cases hparse
  · intro h
    constructor
    · rintro ⟨svcb, hparse⟩
      obtain ⟨fields, rfl, hshort⟩ := exists_fields hparse
      exact ⟨fields, rfl, by_contra fun hmissing => h ⟨fields, rfl, .inl ⟨hshort, hmissing⟩⟩⟩
    · rintro ⟨fields, rfl, hpresent⟩
      rcases Nat.lt_or_eq_of_le fields.length_wire_le with hshort | hlong
      · obtain ⟨read, hparse, -⟩ := fields.parseRdata_of_lt hshort
        exact ⟨_, hparse⟩
      · exact absurd ⟨fields, rfl, .inr ⟨hlong, hpresent⟩⟩ h

/-- The fields as they are written for signatures. -/
def SvcbRecord.encode (svcb : SvcbRecord) : List UInt8 :=
  svcb.svcPriority.toBE ++ (DnsName.wire svcb.targetName.labels ++
    svcb.params.flatMap SvcParam.wire)

theorem canonicalSvcbRdata_eq {record : ResourceRecord} {svcb : SvcbRecord}
    (h : SvcbRecord.fromRecord record = .ok svcb) :
    canonicalSvcbRdata record = .ok svcb.encode := by
  rw [canonicalSvcbRdata, h]
  refine Except.bind_eq_ok.2 ⟨_, rfl, ?_⟩
  simp only [encodeCanonicalName, DnsName.encodeWire_eq_ok]
  exact congrArg Except.ok (List.append_assoc _ _ _)

/-- What is parsed is written as it was, with the name in lower case. -/
theorem encode_of_parseRdata {rdata : List UInt8} {svcb : SvcbRecord}
    (h : SvcbRecord.parseRdata rdata = .ok svcb) : ∃ fields : ServiceFields,
      fields.wire = rdata ∧ svcb.encode = fields.lower.wire := by
  obtain ⟨fields, rfl, hshort⟩ := exists_fields h
  obtain ⟨read, hparse, hwire⟩ := fields.parseRdata_of_lt hshort
  obtain rfl := Except.ok.inj (hparse.symm.trans h)
  refine ⟨fields, rfl, ?_⟩
  rw [SvcbRecord.encode, hwire]
  rfl

/-- **Service records.** Data are accepted just when they are those of a service record, unless a
    mandatory parameter is missing or the name is of 255 octets; and what is accepted is written as
    it was, with the name in lower case. -/
theorem parseRdata_exact_iff (rdata : List UInt8) :
    (((∃ svcb, SvcbRecord.parseRdata rdata = .ok svcb) ↔ IsService rdata) ↔ ¬IsMisjudged rdata) ∧
      ∀ svcb, SvcbRecord.parseRdata rdata = .ok svcb → ∃ fields : ServiceFields,
        fields.wire = rdata ∧ svcb.encode = fields.lower.wire :=
  ⟨exists_parseRdata_iff rdata, fun _ h => encode_of_parseRdata h⟩

namespace ServiceSample

/-- The protocols are mandatory, but there are none. -/
def fields : ServiceFields where
  svcPriority := 1
  targetName := ⟨[], by decide⟩
  params := [⟨0, [0, 1]⟩]
  valid := by simp
  areParams :=
    { lengths := by decide
      sorted := List.pairwise_singleton _ _
      values := by
        refine List.forall_mem_singleton.2 (validateSvcParamValue_eq_ok.1 ?_)
        decide }

theorem not_mandatoryPresent : ¬MandatoryPresent fields.params := by
  intro h
  obtain ⟨other, hother, hkey⟩ := h _ (List.mem_singleton_self _) rfl [1] rfl 1
    (List.mem_singleton_self _)
  rw [List.mem_singleton.1 hother] at hkey
  exact absurd hkey (by decide)

/-- Data are accepted where a mandatory parameter is missing. -/
theorem parseRdata_missing :
    ¬∀ rdata, (∃ svcb, SvcbRecord.parseRdata rdata = .ok svcb) ↔ IsService rdata := fun h =>
  (exists_parseRdata_iff fields.wire).1 (h _)
    ⟨fields, rfl, .inl ⟨by decide, not_mandatoryPresent⟩⟩

end ServiceSample

end Hns
