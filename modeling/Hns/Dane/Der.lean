import Hns.Lib.Fallible

/-!
# The key of a certificate

How `hns-dane` finds the `subjectPublicKeyInfo` of an X.509 certificate
(`extractSpkiDer`): it walks over DER elements with a cursor. An index outside
the data is a panic, apart from the errors, and so is an overflow of the cursor.
-/

namespace Hns

inductive DaneError
  | shortRecord
  | unsupportedUsage
  | unsupportedSelector
  | unsupportedMatching
  | insecureTlsa
  | missingRequiredTlsa
  | webPkiFailed
  | malformedCertificate
  | missingSubjectPublicKeyInfo
  deriving DecidableEq

def DaneError.text : DaneError → String
  | .shortRecord => "TLSA record is too short"
  | .unsupportedUsage => "unsupported TLSA usage"
  | .unsupportedSelector => "unsupported TLSA selector"
  | .unsupportedMatching => "unsupported TLSA matching type"
  | .insecureTlsa => "TLSA records are present but not DNSSEC-secure"
  | .missingRequiredTlsa => "strict HNS mode requires DNSSEC-secure TLSA"
  | .webPkiFailed => "WebPKI validation failed"
  | .malformedCertificate => "certificate DER is malformed"
  | .missingSubjectPublicKeyInfo => "certificate subjectPublicKeyInfo is missing"

/-- The results of `hns-dane`. -/
abbrev DaneResult := Except (Fault DaneError)

def tagSequence : UInt8 := 0x30

def tagExplicitVersion : UInt8 := 0xa0

/-- Where an element lies in the data. -/
structure DerElement where
  tag : UInt8
  start : ℕ
  valueStart : ℕ
  stop : ℕ
  deriving DecidableEq

/-! ## Machine arithmetic -/

/-- The sum, if it is a `usize`. -/
def checkedAdd (a b : ℕ) : Option ℕ := if a + b < 2 ^ 64 then some (a + b) else none

/-- The product, if it is a `usize`. -/
def checkedMul (a b : ℕ) : Option ℕ := if a * b < 2 ^ 64 then some (a * b) else none

/-- Whether `count` more octets end within the limit. -/
def fits (cursor count limit : ℕ) : Bool := (checkedAdd cursor count).any (· ≤ limit)

/-- `data[i]`. -/
def index (data : List UInt8) (i : ℕ) : DaneResult UInt8 := Except.ofOption .panic data[i]?

/-- `data[start..stop]`. -/
def slice (data : List UInt8) (start stop : ℕ) : DaneResult (List UInt8) :=
  if start ≤ stop ∧ stop ≤ data.length then .ok ((data.take stop).drop start) else .error .panic

/-! ## Elements -/

def malformed : Fault DaneError := .failed .malformedCertificate

/-- A reader of the data, which moves the cursor. -/
abbrev DerReader := StateT ℕ DaneResult

/-- `*cursor += 1`, where an overflow is a panic. -/
def advance : DerReader Unit := do
  let cursor ← Except.ofOption (.panic : Fault DaneError) (checkedAdd (← get) 1)
  set cursor

/-- The loop of `read_der_length` over the octets of a long length. -/
def readLengthOctets (data : List UInt8) : ℕ → ℕ → DerReader ℕ
  | 0, length => return length
  | count + 1, length => do
    let value ← Except.ofOption malformed (checkedMul length 256)
    let octet ← index data (← get)
    let length ← Except.ofOption malformed (checkedAdd value octet.toNat)
    advance
    readLengthOctets data count length

def readDerLength (data : List UInt8) (limit : ℕ) : DerReader ℕ := do
  let first ← Except.ofOption malformed data[← get]?
  advance
  if first &&& 0x80 = 0 then return first.toNat
  let lengthOctets := (first &&& 0x7f).toNat
  if lengthOctets = 0 ∨ 8 < lengthOctets then throw malformed
  if !fits (← get) lengthOctets limit then throw malformed
  if (← index data (← get)) = 0 then throw malformed
  let length ← readLengthOctets data lengthOctets 0
  -- A length below 128 has the short form.
  if length < 128 then throw malformed
  return length

def readDerElementWithLimit (data : List UInt8) (limit : ℕ) : DerReader DerElement := do
  let start ← get
  if !fits start 2 limit then throw malformed
  let tag ← index data start
  advance
  let length ← readDerLength data limit
  let valueStart ← get
  let stop ← Except.ofOption malformed (checkedAdd valueStart length)
  if limit < stop then throw malformed
  set stop
  return ⟨tag, start, valueStart, stop⟩

def readDerElement (data : List UInt8) : DerReader DerElement :=
  readDerElementWithLimit data data.length

def skipDerElement (data : List UInt8) (limit : ℕ) : DerReader Unit := do
  let _ ← readDerElementWithLimit data limit

def peekDerTag (data : List UInt8) (cursor limit : ℕ) : DaneResult (Option UInt8) :=
  if cursor = limit then .ok none
  else if cursor < limit then some <$> index data cursor
  else .error malformed

/-! ## The key -/

/-- The key among the fields of the `tbsCertificate` that ends at `limit`. -/
def readSpki (certDer : List UInt8) (limit : ℕ) : DerReader DerElement := do
  if (← peekDerTag certDer (← get) limit) = some tagExplicitVersion then
    skipDerElement certDer limit
  -- The serial number, the algorithm, the issuer, the validity and the subject.
  (List.range 5).forM fun _ => skipDerElement certDer limit
  if limit ≤ (← get) then throw (.failed .missingSubjectPublicKeyInfo)
  let spki ← readDerElementWithLimit certDer limit
  if spki.tag ≠ tagSequence then throw (.failed .missingSubjectPublicKeyInfo)
  return spki

def extractSpkiDer (certDer : List UInt8) : DaneResult (List UInt8) := do
  let (certificate, cursor) ← (readDerElement certDer).run 0
  if certificate.tag ≠ tagSequence ∨ cursor ≠ certDer.length then throw malformed
  let (tbsCertificate, _) ← (readDerElement certDer).run certificate.valueStart
  if tbsCertificate.tag ≠ tagSequence ∨ certificate.stop < tbsCertificate.stop then
    throw malformed
  let (spki, _) ← (readSpki certDer tbsCertificate.stop).run tbsCertificate.valueStart
  slice certDer spki.start spki.stop

/-! ## What the readers fail with -/

/-- A panic, or one of the errors about the certificate. -/
def CertificateFault (fault : Fault DaneError) : Prop :=
  fault = .panic ∨ fault = malformed ∨ fault = .failed .missingSubjectPublicKeyInfo

theorem certificateFault_malformed : CertificateFault malformed := .inr (.inl rfl)

theorem certificateFault_of_index {data : List UInt8} {i : ℕ} {fault : Fault DaneError}
    (h : index data i = .error fault) : CertificateFault fault := .inl (Except.ofOption_eq_error h)

theorem fails_ofOption {α : Type} (o : Option α) :
    StateT.Fails CertificateFault (liftM (Except.ofOption malformed o) : DerReader α) :=
  .lift fun _ h => .inr (.inl (Except.ofOption_eq_error h))

theorem fails_advance : StateT.Fails CertificateFault advance :=
  .bind .get fun _ => .bind (.lift fun _ h => .inl (Except.ofOption_eq_error h)) fun _ => .set _

theorem fails_readLengthOctets (data : List UInt8) (count length : ℕ) :
    StateT.Fails CertificateFault (readLengthOctets data count length) := by
  induction count generalizing length with
  | zero => exact .pure _
  | succ count ih =>
    refine .bind (fails_ofOption _) fun value => .bind .get fun cursor => ?_
    refine .bind (.lift fun _ => certificateFault_of_index) fun octet => ?_
    exact .bind (fails_ofOption _) fun length => .bind fails_advance fun _ => ih length

theorem fails_readDerLength (data : List UInt8) (limit : ℕ) :
    StateT.Fails CertificateFault (readDerLength data limit) := by
  have hm := certificateFault_malformed
  refine .bind .get fun cursor => .bind (fails_ofOption _) fun first => ?_
  refine .bind fails_advance fun _ => .ite (.pure _) ?_
  refine .ite (.throw_bind hm) <| .bind .get fun cursor => .ite (.throw_bind hm) ?_
  refine .bind .get fun cursor => .bind (.lift fun _ => certificateFault_of_index) fun octet => ?_
  refine .ite (.throw_bind hm) <| .bind (fails_readLengthOctets _ _ _) fun length => ?_
  exact .ite (.throw_bind hm) (.pure _)

theorem fails_readDerElementWithLimit (data : List UInt8) (limit : ℕ) :
    StateT.Fails CertificateFault (readDerElementWithLimit data limit) := by
  have hm := certificateFault_malformed
  refine .bind .get fun start => .ite (.throw_bind hm) ?_
  refine .bind (.lift fun _ => certificateFault_of_index) fun tag => .bind fails_advance fun _ => ?_
  refine .bind (fails_readDerLength _ _) fun length => .bind .get fun valueStart => ?_
  refine .bind (fails_ofOption _) fun stop => .ite (.throw_bind hm) ?_
  exact .bind (.set _) fun _ => .pure _

theorem fails_skipDerElement (data : List UInt8) (limit : ℕ) :
    StateT.Fails CertificateFault (skipDerElement data limit) :=
  .bind (fails_readDerElementWithLimit _ _) fun _ => .pure _

theorem certificateFault_of_peekDerTag {data : List UInt8} {cursor limit : ℕ}
    {fault : Fault DaneError} (h : peekDerTag data cursor limit = .error fault) :
    CertificateFault fault := by
  rw [peekDerTag] at h
  split_ifs at h
  · cases hi : index data cursor with
    | ok octet => simp [hi] at h
    | error e =>
      obtain rfl : e = fault := by simpa [hi] using h
      exact certificateFault_of_index hi
  · exact .inr (.inl (Except.error.inj h).symm)

theorem fails_readSpki (certDer : List UInt8) (limit : ℕ) :
    StateT.Fails CertificateFault (readSpki certDer limit) := by
  have hmissing : CertificateFault (.failed .missingSubjectPublicKeyInfo) := .inr (.inr rfl)
  have hskip := fails_skipDerElement certDer limit
  have hfields : StateT.Fails CertificateFault ((List.range 5).forM fun _ =>
      skipDerElement certDer limit) := .forM (fun _ => hskip) _
  have hrest : StateT.Fails CertificateFault (do
      (List.range 5).forM fun _ => skipDerElement certDer limit
      if limit ≤ (← get) then throw (.failed .missingSubjectPublicKeyInfo)
      let spki ← readDerElementWithLimit certDer limit
      if spki.tag ≠ tagSequence then throw (.failed .missingSubjectPublicKeyInfo)
      return spki) := by
    refine .bind hfields fun _ => .bind .get fun cursor => .ite (.throw_bind hmissing) ?_
    refine .bind (fails_readDerElementWithLimit _ _) fun spki => ?_
    exact .ite (.throw_bind hmissing) (.pure _)
  refine .bind .get fun cursor => .bind (.lift fun _ => certificateFault_of_peekDerTag) fun tag => ?_
  exact .ite (.bind hskip fun _ => hrest) hrest

/-- The extraction fails with a panic, or with an error about the certificate. -/
theorem certificateFault_of_extractSpkiDer {certDer : List UInt8} {fault : Fault DaneError}
    (h : extractSpkiDer certDer = .error fault) : CertificateFault fault := by
  have helement (cursor : ℕ) (h : (readDerElement certDer).run cursor = .error fault) :
      CertificateFault fault := fails_readDerElementWithLimit _ _ cursor fault h
  have hslice (start stop : ℕ) (h : slice certDer start stop = .error fault) :
      CertificateFault fault := by
    rw [slice] at h
    split_ifs at h
    exact .inl (Except.error.inj h).symm
  rcases Except.bind_eq_error.1 h with h | ⟨⟨certificate, cursor⟩, -, h⟩
  · exact helement _ h
  dsimp only at h
  split_ifs at h
  · exact .inr (.inl (Except.error.inj h).symm)
  rcases Except.bind_eq_error.1 h with h | ⟨⟨tbsCertificate, _⟩, -, h⟩
  · exact helement _ h
  dsimp only at h
  split_ifs at h
  · exact .inr (.inl (Except.error.inj h).symm)
  rcases Except.bind_eq_error.1 h with h | ⟨⟨spki, _⟩, -, h⟩
  · exact fails_readSpki _ _ _ fault h
  · exact hslice _ _ h

end Hns
