import Hns.Dns.Record

/-!
# Messages

The messages of `hns-core`: a header, questions and three sections of records,
read one after the other from the octets of a message, where names may point
back, and written without such pointers.
-/

namespace Hns

def maxDnsQuestions : ℕ := 16

def maxDnsRecords : ℕ := 2048

def maxRdataLen : ℕ := 65535

/-! ## Flags -/

structure DnsFlags where
  bits : UInt16
  deriving DecidableEq

namespace DnsFlags

variable (flags : DnsFlags)

def isResponse : Bool := flags.bits &&& 0x8000 ≠ 0

def opcode : UInt8 := ((flags.bits >>> 11) &&& 0x0f).toUInt8

def truncated : Bool := flags.bits &&& 0x0200 ≠ 0

def rcode : UInt8 := (flags.bits &&& 0x000f).toUInt8

end DnsFlags

/-! ## Parts of a message -/

structure DnsHeader where
  id : UInt16
  flags : DnsFlags
  questionCount : UInt16
  answerCount : UInt16
  authorityCount : UInt16
  additionalCount : UInt16
  deriving DecidableEq

namespace DnsHeader

def parse (data : List UInt8) : Except ParseError DnsHeader :=
  match data with
  | i₁ :: i₂ :: f₁ :: f₂ :: q₁ :: q₂ :: a₁ :: a₂ :: n₁ :: n₂ :: d₁ :: d₂ :: _ =>
    .ok {
      id := Octet.be16 i₁ i₂
      flags := ⟨Octet.be16 f₁ f₂⟩
      questionCount := Octet.be16 q₁ q₂
      answerCount := Octet.be16 a₁ a₂
      authorityCount := Octet.be16 n₁ n₂
      additionalCount := Octet.be16 d₁ d₂ }
  | _ => .error .unexpectedEof

end DnsHeader

structure DnsQuestion where
  name : DnsName
  recordType : RecordType
  class_ : UInt16
  deriving DecidableEq

namespace DnsQuestion

def parse (message : List UInt8) (offset : ℕ) : Except ParseError (DnsQuestion × ℕ) := do
  let (name, cursor) ← DnsName.parseWire message offset
  match message.drop cursor with
  | t₁ :: t₂ :: c₁ :: c₂ :: _ =>
    return (⟨name, .fromCode (Octet.be16 t₁ t₂), Octet.be16 c₁ c₂⟩, cursor + 4)
  | _ => throw .unexpectedEof

def encode (question : DnsQuestion) : Except ParseError (List UInt8) := do
  let name ← question.name.encodeWire
  return name ++ question.recordType.code.toBE ++ question.class_.toBE

end DnsQuestion

namespace ResourceRecord

def parse (message : List UInt8) (offset : ℕ) : Except ParseError (ResourceRecord × ℕ) := do
  let (name, cursor) ← DnsName.parseWire message offset
  match message.drop cursor with
  | t₁ :: t₂ :: c₁ :: c₂ :: l₁ :: l₂ :: l₃ :: l₄ :: r₁ :: r₂ :: _ =>
    let rdlength := (Octet.be16 r₁ r₂).toNat
    if maxRdataLen < rdlength then throw .lengthLimit
    let cursor := cursor + 10
    let stop := cursor + rdlength
    if message.length < stop then throw .unexpectedEof
    return ({
      name := name
      recordType := .fromCode (Octet.be16 t₁ t₂)
      class_ := Octet.be16 c₁ c₂
      ttl := Octet.be32 l₁ l₂ l₃ l₄
      rdata := (message.drop cursor).take rdlength }, stop)
  | _ => throw .unexpectedEof

def encode (record : ResourceRecord) : Except ParseError (List UInt8) := do
  if 65535 < record.rdata.length then throw .lengthLimit
  let name ← record.name.encodeWire
  return name ++ record.recordType.code.toBE ++ record.class_.toBE ++ record.ttl.toBE ++
    (UInt16.ofNat record.rdata.length).toBE ++ record.rdata

end ResourceRecord

/-! ## Messages -/

/-- Items read one after the other, and where the last one ends. -/
def parseItems {α : Type} (parse : List UInt8 → ℕ → Except ParseError (α × ℕ))
    (message : List UInt8) : ℕ → ℕ → Except ParseError (List α × ℕ)
  | 0, cursor => .ok ([], cursor)
  | count + 1, cursor => do
    let (item, next) ← parse message cursor
    let (items, stop) ← parseItems parse message count next
    return (item :: items, stop)

def parseRecords (message : List UInt8) (cursor : ℕ) (count : UInt16) :
    Except ParseError (List ResourceRecord × ℕ) :=
  parseItems ResourceRecord.parse message count.toNat cursor

structure DnsEncodeConfig where
  maxMessageLen : ℕ

structure DnsMessage where
  header : DnsHeader
  questions : List DnsQuestion
  answers : List ResourceRecord
  authorities : List ResourceRecord
  additionals : List ResourceRecord
  deriving DecidableEq

namespace DnsMessage

def parse (message : List UInt8) : Except ParseError DnsMessage := do
  if message.length < 12 then throw .unexpectedEof
  let header ← DnsHeader.parse (message.take 12)
  if maxDnsQuestions < header.questionCount.toNat then throw .lengthLimit
  let totalRecords := header.answerCount.toNat + header.authorityCount.toNat +
    header.additionalCount.toNat
  if maxDnsRecords < totalRecords then throw .lengthLimit
  let (questions, cursor) ← parseItems DnsQuestion.parse message header.questionCount.toNat 12
  let (answers, next) ← parseRecords message cursor header.answerCount
  let (authorities, next) ← parseRecords message next header.authorityCount
  let (additionals, next) ← parseRecords message next header.additionalCount
  if next ≠ message.length then throw .trailingBytes
  return ⟨header, questions, answers, authorities, additionals⟩

variable (message : DnsMessage)

def totalRecords : ℕ :=
  message.answers.length + message.authorities.length + message.additionals.length

def encode (config : DnsEncodeConfig) : Except ParseError (List UInt8) := do
  if maxDnsQuestions < message.questions.length ∨ maxDnsRecords < message.totalRecords then
    throw .lengthLimit
  let questions ← message.questions.mapM DnsQuestion.encode
  let answers ← message.answers.mapM ResourceRecord.encode
  let authorities ← message.authorities.mapM ResourceRecord.encode
  let additionals ← message.additionals.mapM ResourceRecord.encode
  let out := message.header.id.toBE ++ message.header.flags.bits.toBE ++
    (UInt16.ofNat message.questions.length).toBE ++ (UInt16.ofNat message.answers.length).toBE ++
    (UInt16.ofNat message.authorities.length).toBE ++
    (UInt16.ofNat message.additionals.length).toBE ++
    questions.flatten ++ answers.flatten ++ authorities.flatten ++ additionals.flatten
  if config.maxMessageLen < out.length then throw .lengthLimit
  return out

end DnsMessage

end Hns
