import Hns.Dns.Cursor
import Hns.Lib.Chars

/-!
# Handshake resources

The resource of a name on the chain, decoded by `hns-core` into the records of a
delegation (`decodeHandshakeResourceRecords`). What is decoded stays within the
authority of the name (`WithinAuthority`): the delegation is its own, and an
address belongs to a name server of the delegation that is below the name, or
that is called after this address.
-/

namespace Hns

def defaultHandshakeResourceTtl : UInt32 := 21600

def maxHandshakeResourceRecords : ℕ := 128

def maxHandshakeTxtStrings : ℕ := 64

def resourceVersion : UInt8 := 0

inductive ResourceError
  | malformed
  | unsupportedVersion
  | unsupportedRecordType
  | tooManyRecords
  deriving DecidableEq

instance : ToString ResourceError where
  toString
    | .malformed => "Handshake resource is malformed"
    | .unsupportedVersion => "Handshake resource serialization version is unsupported"
    | .unsupportedRecordType => "Handshake resource record type is unsupported"
    | .tooManyRecords => "Handshake resource exceeds record limits"

namespace Resource

/-! ## The cursor -/

/-- A reader of the data, which moves the offset of the cursor. -/
abbrev ResourceReader := StateT ℕ (Except ResourceError)

section Cursor

variable (data : List UInt8)

def readU8 : ResourceReader UInt8 := do
  let byte ← Except.ofOption ResourceError.malformed data[← get]?
  modify (· + 1)
  return byte

/-- `data.get(offset..end)`, where the sum is a `usize`. -/
def readBytes (len : ℕ) : ResourceReader (List UInt8) := do
  let offset ← get
  if 2 ^ 64 ≤ offset + len ∨ data.length < offset + len then throw .malformed
  set (offset + len)
  return (data.drop offset).take len

/-- The octets of the number, as they are written again. -/
def readU16Be : ResourceReader (List UInt8) := readBytes data 2

def readLenU8Bytes : ResourceReader (List UInt8) := do
  let len ← readU8 data
  readBytes data len.toNat

def readName : ResourceReader DnsName := do
  let offset ← get
  let (name, next) ← (DnsName.parseWire data offset).mapError fun _ => ResourceError.malformed
  if next ≤ offset ∨ data.length < next then throw .malformed
  set next
  return name

def remaining (offset : ℕ) : ℕ := data.length - offset

end Cursor

/-! ## Synthesized names -/

/-- `0123456789abcdefghijklmnopqrstuv`. -/
def base32hexDigit (index : ℕ) : Char :=
  if index < 10 then Char.ofNat (0x30 + index) else Char.ofNat (0x61 + (index - 10))

/-- The digits that the bits of the buffer are enough for, and how many bits are left; there are at
    most so many. -/
def base32hexDigits (buffer : ℕ) : ℕ → ℕ → List Char × ℕ
  | 0, bits => ([], bits)
  | count + 1, bits =>
    if 5 ≤ bits then
      let (digits, left) := base32hexDigits buffer count (bits - 5)
      (base32hexDigit (buffer / 2 ^ (bits - 5) % 32) :: digits, left)
    else ([], bits)

/-- The loop of `base32hex_nopad`; the buffer keeps 32 bits. -/
def base32hexLoop : List UInt8 → ℕ → ℕ → List Char
  | [], buffer, bits => if 0 < bits then [base32hexDigit (buffer * 2 ^ (5 - bits) % 32)] else []
  | byte :: input, buffer, bits =>
    let buffer := (buffer * 256 + byte.toNat) % 2 ^ 32
    let (digits, bits) := base32hexDigits buffer (bits + 8) (bits + 8)
    digits ++ base32hexLoop input buffer bits

def base32hexNopad (input : List UInt8) : List Char := base32hexLoop input 0 0

def synthName (address : List UInt8) : Except ResourceError DnsName :=
  (DnsName.fromAscii ('_' :: base32hexNopad address ++ '.' :: Chars.of "_synth")).mapError fun _ =>
    .malformed

example : base32hexNopad [45, 77, 219, 32] = Chars.of "5l6tm80" := by decide +kernel

/-! ## Records -/

def pushRecord (records : List ResourceRecord) (record : ResourceRecord) :
    Except ResourceError (List ResourceRecord) :=
  if maxHandshakeResourceRecords ≤ records.length then .error .tooManyRecords
  else .ok (records ++ [record])

def record (name : DnsName) (recordType : RecordType) (ttl : UInt32) (rdata : List UInt8) :
    ResourceRecord := ⟨name, recordType, 1, ttl, rdata⟩

def nameRdata (name : DnsName) : Except ResourceError (List UInt8) :=
  name.encodeWire.mapError fun _ => .malformed

/-- The strings of a TXT record, each with its length. -/
def readTexts (data : List UInt8) : ℕ → ResourceReader (List UInt8)
  | 0 => return []
  | count + 1 => do
    let text ← readLenU8Bytes data
    let rdata ← readTexts data count
    return UInt8.ofNat text.length :: text ++ rdata

/-- The NS record of a name server. -/
def pushNs (owner : DnsName) (ttl : UInt32) (records : List ResourceRecord) (ns : DnsName) :
    Except ResourceError (List ResourceRecord) := do
  pushRecord records (record owner .ns ttl (← nameRdata ns))

/-- A name server with its address, which is kept if the server is below the owner. -/
def readGlue (owner : DnsName) (data : List UInt8) (ttl : UInt32) (len : ℕ)
    (recordType : RecordType) (records : List ResourceRecord) :
    ResourceReader (List ResourceRecord) := do
  let ns ← readName data
  let address ← readBytes data len
  let records ← pushNs owner ttl records ns
  if ns.isSubdomainOrEqual owner then pushRecord records (record ns recordType ttl address)
  else return records

/-- An address that the name server is called after. -/
def readSynth (owner : DnsName) (data : List UInt8) (ttl : UInt32) (len : ℕ)
    (recordType : RecordType) (records : List ResourceRecord) :
    ResourceReader (List ResourceRecord) := do
  let address ← readBytes data len
  let ns ← synthName address
  let records ← pushNs owner ttl records ns
  pushRecord records (record ns recordType ttl address)

/-- The record of a type. -/
def decodeBody (owner : DnsName) (data : List UInt8) (ttl : UInt32) (records : List ResourceRecord)
    (type : UInt8) : ResourceReader (List ResourceRecord) :=
  match type.toNat with
  | 0 => do
    let keyTag ← readU16Be data
    let algorithm ← readU8 data
    let digestType ← readU8 data
    let digest ← readLenU8Bytes data
    pushRecord records (record owner .ds ttl (keyTag ++ algorithm :: digestType :: digest))
  | 1 => do
    let ns ← readName data
    pushNs owner ttl records ns
  | 2 => readGlue owner data ttl 4 .a records
  | 3 => readGlue owner data ttl 16 .aaaa records
  | 4 => readSynth owner data ttl 4 .a records
  | 5 => readSynth owner data ttl 16 .aaaa records
  | 6 => do
    let count ← readU8 data
    if maxHandshakeTxtStrings < count.toNat then throw .tooManyRecords
    let rdata ← readTexts data count.toNat
    pushRecord records (record owner .txt ttl rdata)
  | _ => throw .unsupportedRecordType

/-- The body of the loop of `decode_handshake_resource_records_with_ttl`. -/
def decodeRecord (owner : DnsName) (data : List UInt8) (ttl : UInt32)
    (records : List ResourceRecord) : ResourceReader (List ResourceRecord) := do
  decodeBody owner data ttl records (← readU8 data)

/-- The loop, for at most so many rounds; nothing if they are not enough. -/
def decodeLoop (owner : DnsName) (data : List UInt8) (ttl : UInt32) :
    ℕ → List ResourceRecord → ℕ → Option (Except ResourceError (List ResourceRecord))
  | 0, records, offset => if 0 < remaining data offset then none else some (.ok records)
  | rounds + 1, records, offset =>
    if 0 < remaining data offset then
      match (decodeRecord owner data ttl records).run offset with
      | .error e => some (.error e)
      | .ok (records, offset) => decodeLoop owner data ttl rounds records offset
    else some (.ok records)

end Resource

open Resource

def decodeHandshakeResourceRecordsWithTtl (owner : DnsName) (data : List UInt8) (ttl : UInt32) :
    Except ResourceError (List ResourceRecord) := do
  let (version, offset) ← (readU8 data).run 0
  if version ≠ resourceVersion then throw .unsupportedVersion
  (decodeLoop owner data ttl data.length [] offset).getD (.error .malformed)

def decodeHandshakeResourceRecords (owner : DnsName) (data : List UInt8) :
    Except ResourceError (List ResourceRecord) :=
  decodeHandshakeResourceRecordsWithTtl owner data defaultHandshakeResourceTtl

/-! ## The rounds of the loop -/

namespace Resource

section Moves

variable {α β : Type} {data : List UInt8} {owner : DnsName} {ttl : UInt32}
  {records : List ResourceRecord}

/-- The cursor does not move back, nor out of the data. -/
def Moves (data : List UInt8) (x : ResourceReader α) : Prop :=
  ∀ offset a next, offset ≤ data.length → x.run offset = .ok (a, next) →
    offset ≤ next ∧ next ≤ data.length

theorem run_bind_eq_ok {x : ResourceReader α} {f : α → ResourceReader β} {offset next : ℕ} {b : β} :
    (x >>= f).run offset = .ok (b, next) ↔
      ∃ a middle, x.run offset = .ok (a, middle) ∧ (f a).run middle = .ok (b, next) := by
  rw [StateT.run_bind, Except.bind_eq_ok, Prod.exists]

theorem run_lift_eq_ok {y : Except ResourceError α} {offset next : ℕ} {a : α} :
    (liftM y : ResourceReader α).run offset = .ok (a, next) ↔ y = .ok a ∧ next = offset := by
  cases y with
  | error e =>
    constructor
    · rintro ⟨⟩
    · rintro ⟨⟨⟩, -⟩
  | ok b =>
    constructor
    · rintro ⟨⟩
      exact ⟨rfl, rfl⟩
    · rintro ⟨⟨⟩, rfl⟩
      rfl

theorem Moves.pure (a : α) : Moves data (pure a : ResourceReader α) := by
  rintro offset _ _ hle ⟨⟩
  exact ⟨le_rfl, hle⟩

theorem Moves.bind {x : ResourceReader α} {f : α → ResourceReader β} (hx : Moves data x)
    (hf : ∀ a, Moves data (f a)) : Moves data (x >>= f) := by
  intro offset b next hle h
  obtain ⟨a, middle, hx', hf'⟩ := run_bind_eq_ok.1 h
  obtain ⟨hle₁, hle₂⟩ := hx offset a middle hle hx'
  obtain ⟨hle₃, hle₄⟩ := hf a middle b next hle₂ hf'
  exact ⟨hle₁.trans hle₃, hle₄⟩

theorem Moves.lift (y : Except ResourceError α) : Moves data (liftM y : ResourceReader α) := by
  intro offset a next hle h
  cases y with
  | error e => cases h
  | ok b =>
    cases h
    exact ⟨le_rfl, hle⟩

theorem Moves.ite {c : Prop} [Decidable c] {x y : ResourceReader α} (hx : Moves data x)
    (hy : Moves data y) : Moves data (if c then x else y) := by
  split_ifs
  · exact hx
  · exact hy

theorem Moves.of_throw (e : ResourceError) : Moves data (throw e : ResourceReader α) := by
  rintro offset a next hle ⟨⟩

/-- An octet is consumed. -/
theorem readU8_moves {offset next : ℕ} {byte : UInt8}
    (h : (readU8 data).run offset = .ok (byte, next)) : next = offset + 1 ∧ next ≤ data.length := by
  rw [readU8] at h
  obtain ⟨_, _, hget, h⟩ := run_bind_eq_ok.1 h
  cases hget
  obtain ⟨octet, middle, hoctet, hrest⟩ := run_bind_eq_ok.1 h
  obtain ⟨hoctet, rfl⟩ := run_lift_eq_ok.1 hoctet
  cases hrest
  exact ⟨rfl, (List.getElem?_eq_some_iff.1 (Except.ofOption_eq_ok.1 hoctet)).1⟩

theorem moves_readU8 : Moves data (readU8 data) := by
  intro offset byte next _ h
  obtain ⟨rfl, hle⟩ := readU8_moves h
  exact ⟨Nat.le_succ _, hle⟩

theorem moves_readBytes (len : ℕ) : Moves data (readBytes data len) := by
  intro offset bytes next hle h
  rw [readBytes] at h
  obtain ⟨_, _, ⟨⟩, h⟩ := run_bind_eq_ok.1 h
  split_ifs at h with hout
  · cases h
  · cases h
    omega

theorem moves_readLenU8Bytes : Moves data (readLenU8Bytes data) :=
  moves_readU8.bind fun _ => moves_readBytes _

theorem moves_readName : Moves data (readName data) := by
  intro offset name next hle h
  rw [readName] at h
  obtain ⟨_, _, ⟨⟩, h⟩ := run_bind_eq_ok.1 h
  obtain ⟨⟨name', stop⟩, middle, hparse, h⟩ := run_bind_eq_ok.1 h
  obtain ⟨-, rfl⟩ := run_lift_eq_ok.1 hparse
  dsimp only at h
  split_ifs at h with hout
  · cases h
  · cases h
    omega

theorem moves_readTexts (count : ℕ) : Moves data (readTexts data count) := by
  induction count with
  | zero => exact .pure _
  | succ count ih => exact moves_readLenU8Bytes.bind fun _ => ih.bind fun _ => .pure _

theorem moves_readGlue (len : ℕ) (recordType : RecordType) :
    Moves data (readGlue owner data ttl len recordType records) := by
  refine moves_readName.bind fun ns => (moves_readBytes len).bind fun address => ?_
  exact (Moves.lift _).bind fun records => .ite (.lift _) (.pure _)

theorem moves_readSynth (len : ℕ) (recordType : RecordType) :
    Moves data (readSynth owner data ttl len recordType records) := by
  refine (moves_readBytes len).bind fun address => (Moves.lift _).bind fun ns => ?_
  exact (Moves.lift _).bind fun records => .lift _

theorem moves_decodeBody (type : UInt8) : Moves data (decodeBody owner data ttl records type) := by
  unfold decodeBody
  split
  · refine (moves_readBytes 2).bind fun keyTag => moves_readU8.bind fun algorithm => ?_
    exact moves_readU8.bind fun digestType => moves_readLenU8Bytes.bind fun digest => .lift _
  · exact moves_readName.bind fun ns => .lift _
  · exact moves_readGlue 4 .a
  · exact moves_readGlue 16 .aaaa
  · exact moves_readSynth 4 .a
  · exact moves_readSynth 16 .aaaa
  · refine moves_readU8.bind fun count => .ite ((Moves.of_throw _).bind fun _ => ?_) ?_
    all_goals exact (moves_readTexts _).bind fun rdata => .lift _
  · exact .of_throw _

/-- A round consumes an octet at least. -/
theorem decodeRecord_moves {offset next : ℕ} {records' : List ResourceRecord}
    (h : (decodeRecord owner data ttl records).run offset = .ok (records', next)) :
    offset < next ∧ next ≤ data.length := by
  obtain ⟨type, middle, htype, h⟩ := run_bind_eq_ok.1 h
  obtain ⟨rfl, hle⟩ := readU8_moves htype
  exact moves_decodeBody type _ _ _ hle h

/-- As many rounds as there are octets are enough. -/
theorem exists_decodeLoop {rounds offset : ℕ} (hrounds : data.length ≤ offset + rounds) :
    ∃ result, decodeLoop owner data ttl rounds records offset = some result := by
  induction rounds generalizing records offset with
  | zero =>
    have hend : ¬0 < remaining data offset := by
      rw [remaining]
      omega
    exact ⟨_, if_neg hend⟩
  | succ rounds ih =>
    rw [decodeLoop]
    by_cases hmore : 0 < remaining data offset
    · rw [if_pos hmore]
      rcases h : (decodeRecord owner data ttl records).run offset with e | ⟨records', next⟩
      · exact ⟨_, rfl⟩
      · have hnext := decodeRecord_moves h
        exact ih (by omega)
    · exact ⟨_, if_neg hmore⟩

end Moves

/-! ## Authority -/

/-- The records stay within the authority of the owner. -/
structure WithinAuthority (owner : DnsName) (records : List ResourceRecord) : Prop where
  length_le : records.length ≤ maxHandshakeResourceRecords
  types : ∀ r ∈ records, r.recordType ∈ [.ds, .ns, .txt, .a, .aaaa]
  owned : ∀ r ∈ records, r.recordType ∈ [.ds, .ns, .txt] → r.name = owner
  addresses : ∀ r ∈ records, r.recordType ∈ [.a, .aaaa] →
    (∃ ns ∈ records, ns.recordType = .ns ∧ ns.name = owner ∧ r.name.encodeWire = .ok ns.rdata) ∧
      (r.name.isSubdomainOrEqual owner ∨ synthName r.rdata = .ok r.name)

section WithinAuthority

variable {data : List UInt8} {owner : DnsName} {ttl : UInt32} {records records' : List ResourceRecord}

theorem withinAuthority_nil (owner : DnsName) : WithinAuthority owner [] :=
  ⟨Nat.zero_le _, by simp, by simp, by simp⟩

theorem pushRecord_eq_ok {r : ResourceRecord} :
    pushRecord records r = .ok records' ↔
      records.length < maxHandshakeResourceRecords ∧ records' = records ++ [r] := by
  rw [pushRecord]
  split_ifs with hfull
  · simp [hfull]
  · simp [not_le.1 hfull, eq_comm]

/-- A record is added. -/
theorem WithinAuthority.push {r : ResourceRecord} (h : WithinAuthority owner records)
    (hpush : pushRecord records r = .ok records')
    (htype : r.recordType ∈ [.ds, .ns, .txt, .a, .aaaa])
    (howned : r.recordType ∈ [.ds, .ns, .txt] → r.name = owner)
    (haddress : r.recordType ∈ [.a, .aaaa] →
      (∃ ns ∈ records, ns.recordType = .ns ∧ ns.name = owner ∧ r.name.encodeWire = .ok ns.rdata) ∧
        (r.name.isSubdomainOrEqual owner ∨ synthName r.rdata = .ok r.name)) :
    WithinAuthority owner records' := by
  obtain ⟨hroom, rfl⟩ := pushRecord_eq_ok.1 hpush
  have hall (motive : ResourceRecord → Prop) (hrecords : ∀ r ∈ records, motive r) (hr : motive r) :
      ∀ r' ∈ records ++ [r], motive r' :=
    List.forall_mem_append.2 ⟨hrecords, List.forall_mem_singleton.2 hr⟩
  have hmore {r' : ResourceRecord} (hns : ∃ ns ∈ records, ns.recordType = .ns ∧ ns.name = owner ∧
      r'.name.encodeWire = .ok ns.rdata) : ∃ ns ∈ records ++ [r], ns.recordType = .ns ∧
      ns.name = owner ∧ r'.name.encodeWire = .ok ns.rdata := by
    obtain ⟨ns, hmem, hns⟩ := hns
    exact ⟨ns, List.mem_append_left _ hmem, hns⟩
  refine ⟨?_, hall _ h.types htype, hall _ h.owned howned,
    hall _ (fun r' hr' hkind => ?_) fun hkind => ?_⟩
  · rw [List.length_append]
    exact hroom
  · exact ⟨hmore (h.addresses r' hr' hkind).1, (h.addresses r' hr' hkind).2⟩
  · exact ⟨hmore (haddress hkind).1, (haddress hkind).2⟩

theorem WithinAuthority.push_owned {recordType : RecordType} {rdata : List UInt8}
    (h : WithinAuthority owner records) (htype : recordType ∈ [.ds, .ns, .txt])
    (hpush : pushRecord records (record owner recordType ttl rdata) = .ok records') :
    WithinAuthority owner records' := by
  have hnot : recordType ∉ [.a, .aaaa] := by
    fin_cases htype <;> decide
  have hany : recordType ∈ [.ds, .ns, .txt, .a, .aaaa] := by
    fin_cases htype <;> decide
  exact h.push hpush hany (fun _ => rfl) fun hkind => absurd hkind hnot

/-- A name server is added, and points to its name. -/
theorem WithinAuthority.pushNs {ns : DnsName} (h : WithinAuthority owner records)
    (hpush : pushNs owner ttl records ns = .ok records') :
    WithinAuthority owner records' ∧ ∃ r ∈ records', r.recordType = .ns ∧ r.name = owner ∧
      ns.encodeWire = .ok r.rdata := by
  obtain ⟨rdata, hrdata, hpush⟩ := Except.bind_eq_ok.1 hpush
  refine ⟨h.push_owned (by decide) hpush, ?_⟩
  obtain ⟨-, rfl⟩ := pushRecord_eq_ok.1 hpush
  exact ⟨_, List.mem_append_right _ (List.mem_singleton_self _), rfl, rfl,
    Except.mapError_eq_ok.1 hrdata⟩

/-- The address of a name server is added. -/
theorem WithinAuthority.push_address {ns : DnsName} {recordType : RecordType}
    {address : List UInt8} (h : WithinAuthority owner records) (htype : recordType ∈ [.a, .aaaa])
    (hns : ∃ r ∈ records, r.recordType = .ns ∧ r.name = owner ∧ ns.encodeWire = .ok r.rdata)
    (hname : ns.isSubdomainOrEqual owner ∨ synthName address = .ok ns)
    (hpush : pushRecord records (record ns recordType ttl address) = .ok records') :
    WithinAuthority owner records' := by
  have hnot : recordType ∉ [.ds, .ns, .txt] := by
    fin_cases htype <;> decide
  have hany : recordType ∈ [.ds, .ns, .txt, .a, .aaaa] := by
    fin_cases htype <;> decide
  exact h.push hpush hany (fun hkind => absurd hkind hnot) fun _ => ⟨hns, hname⟩

theorem ensures_lift {y : Except ResourceError (List ResourceRecord)}
    {post : List ResourceRecord → Prop} (h : ∀ a, y = .ok a → post a) :
    StateT.Ensures (liftM y : ResourceReader (List ResourceRecord)) post :=
  fun _ a _ hrun => h a (run_lift_eq_ok.1 hrun).1

theorem ensures_lift_bind {α : Type} {y : Except ResourceError α}
    {f : α → ResourceReader (List ResourceRecord)} {post : List ResourceRecord → Prop}
    (h : ∀ a, y = .ok a → StateT.Ensures (f a) post) :
    StateT.Ensures ((liftM y : ResourceReader α) >>= f) post := by
  intro offset b next hrun
  obtain ⟨a, middle, hlift, hrest⟩ := run_bind_eq_ok.1 hrun
  exact h a (run_lift_eq_ok.1 hlift).1 middle b next hrest

theorem withinAuthority_readGlue (h : WithinAuthority owner records) {recordType : RecordType}
    (htype : recordType ∈ [.a, .aaaa]) (len : ℕ) :
    StateT.Ensures (readGlue owner data ttl len recordType records) (WithinAuthority owner) := by
  refine .bind fun ns => .bind fun address => ensures_lift_bind fun records' hpush => ?_
  obtain ⟨h', hns⟩ := h.pushNs hpush
  -- An address out of bailiwick is dropped.
  refine .ite (fun hbelow => ?_) fun _ => .pure h'
  exact ensures_lift fun _ hpush' => h'.push_address htype hns (.inl hbelow) hpush'

theorem withinAuthority_readSynth (h : WithinAuthority owner records) {recordType : RecordType}
    (htype : recordType ∈ [.a, .aaaa]) (len : ℕ) :
    StateT.Ensures (readSynth owner data ttl len recordType records) (WithinAuthority owner) := by
  refine .bind fun address => ensures_lift_bind fun ns hsynth => ?_
  refine ensures_lift_bind fun records' hpush => ?_
  obtain ⟨h', hns⟩ := h.pushNs hpush
  exact ensures_lift fun _ hpush' => h'.push_address htype hns (.inr hsynth) hpush'

/-- A round keeps the records within the authority of the owner. -/
theorem withinAuthority_decodeRecord (h : WithinAuthority owner records) :
    StateT.Ensures (decodeRecord owner data ttl records) (WithinAuthority owner) := by
  refine .bind fun type => ?_
  unfold decodeBody
  split
  · refine .bind fun keyTag => .bind fun algorithm => .bind fun digestType => .bind fun digest => ?_
    exact ensures_lift fun _ hpush => h.push_owned (by decide) hpush
  · exact .bind fun ns => ensures_lift fun _ hpush => (h.pushNs hpush).1
  · exact withinAuthority_readGlue h (by decide) 4
  · exact withinAuthority_readGlue h (by decide) 16
  · exact withinAuthority_readSynth h (by decide) 4
  · exact withinAuthority_readSynth h (by decide) 16
  · refine .bind fun count => .ite (fun _ => .throw_bind) fun _ => .bind fun rdata => ?_
    exact ensures_lift fun _ hpush => h.push_owned (by decide) hpush
  · rintro offset a next ⟨⟩

/-- The loop keeps them there. -/
theorem withinAuthority_decodeLoop {rounds offset : ℕ} (h : WithinAuthority owner records)
    (hloop : decodeLoop owner data ttl rounds records offset = some (.ok records')) :
    WithinAuthority owner records' := by
  induction rounds generalizing records offset with
  | zero =>
    rw [decodeLoop] at hloop
    split_ifs at hloop
    cases hloop
    exact h
  | succ rounds ih =>
    rw [decodeLoop] at hloop
    split_ifs at hloop
    · rcases hround : (decodeRecord owner data ttl records).run offset with e | ⟨more, next⟩
      · rw [hround] at hloop
        cases hloop
      · rw [hround] at hloop
        exact ih (withinAuthority_decodeRecord h offset more next hround) hloop
    · cases hloop
      exact h

end WithinAuthority

end Resource

theorem withinAuthority_of_decode {owner : DnsName} {data : List UInt8} {ttl : UInt32}
    {records : List ResourceRecord}
    (h : decodeHandshakeResourceRecordsWithTtl owner data ttl = .ok records) :
    WithinAuthority owner records := by
  obtain ⟨⟨version, offset⟩, -, h⟩ := Except.bind_eq_ok.1 h
  obtain ⟨-, h⟩ := Except.throw_unless.1 h
  obtain ⟨result, hresult⟩ := @exists_decodeLoop data owner ttl [] data.length offset (by omega)
  rw [hresult, Option.getD_some] at h
  obtain rfl : result = .ok records := h
  exact withinAuthority_decodeLoop (withinAuthority_nil owner) hresult

/-- What is decoded stays within the authority of the owner; every round consumes an octet, and so
    the loop comes to an end. -/
theorem decodeHandshakeResourceRecords_authority (owner : DnsName) (data : List UInt8) :
    (∀ records, decodeHandshakeResourceRecords owner data = .ok records →
      WithinAuthority owner records) ∧
    (∀ ttl records offset records' next,
      (decodeRecord owner data ttl records).run offset = .ok (records', next) →
        offset < next ∧ next ≤ data.length) ∧
    ∀ ttl records offset, ∃ result, decodeLoop owner data ttl data.length records offset =
      some result :=
  ⟨fun _ => withinAuthority_of_decode, fun _ _ _ _ _ => decodeRecord_moves,
    fun _ _ _ => exists_decodeLoop (Nat.le_add_left _ _)⟩

/-! ## A name server that is called after its address -/

namespace SynthSample

/-- `_5l6tm80._synth`. -/
def server : DnsName :=
  ⟨[⟨[0x5f, 0x35, 0x6c, 0x36, 0x74, 0x6d, 0x38, 0x30], by decide, by decide, by decide, by decide⟩,
    ⟨[0x5f, 0x73, 0x79, 0x6e, 0x74, 0x68], by decide, by decide, by decide, by decide⟩], by decide⟩

def ns : ResourceRecord := ⟨.root, .ns, 1, 21600, DnsName.wire server.labels⟩

def address : ResourceRecord := ⟨server, .a, 1, 21600, [45, 77, 219, 32]⟩

theorem withinAuthority_synth : WithinAuthority .root [ns, address] :=
  (decodeHandshakeResourceRecords_authority .root [0, 4, 45, 77, 219, 32]).1 [ns, address]
    (by decide +kernel)

end SynthSample

end Hns
