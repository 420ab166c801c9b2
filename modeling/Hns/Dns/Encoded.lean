import Hns.Dns.Compression

/-!
# Messages that are written

What `encode` writes of a message stands where the parser looks for it, part by
part: names without pointers (`questionAt_of_encode`, `recordAt_of_encode`), the
items of a section one after the other (`ItemsAt.of_encode`), and the sections
after the header. So the message is read again (`parse_of_encode`), if its header
says how long its sections are and its types are the ones their codes stand for:
neither is kept by what is written.
-/

namespace Hns

/-- The header says how long the sections are. -/
structure DnsMessage.CountsMatch (message : DnsMessage) : Prop where
  questions : message.header.questionCount.toNat = message.questions.length
  answers : message.header.answerCount.toNat = message.answers.length
  authorities : message.header.authorityCount.toNat = message.authorities.length
  additionals : message.header.additionalCount.toNat = message.additionals.length

/-- No type is unknown in name only. -/
structure DnsMessage.TypesKnown (message : DnsMessage) : Prop where
  questions : ∀ question ∈ message.questions, question.recordType.IsKnown
  answers : ∀ record ∈ message.answers, record.recordType.IsKnown
  authorities : ∀ record ∈ message.authorities, record.recordType.IsKnown
  additionals : ∀ record ∈ message.additionals, record.recordType.IsKnown

/-! ## Items -/

section Items

variable {octets : List UInt8}

theorem DnsName.plainAt_of_drop {start : ℕ} {name : DnsName} {rest : List UInt8}
    (h : octets.drop start = wire name.labels ++ rest) :
    PlainAt octets start name (start + (wire name.labels).length) ∧
      octets.drop (start + (wire name.labels).length) = rest := by
  refine ⟨⟨rest, h, rfl⟩, ?_⟩
  rw [← List.drop_drop, h, List.drop_left]

theorem questionAt_of_encode {start : ℕ} {question : DnsQuestion} {written rest : List UInt8}
    (hknown : question.recordType.IsKnown) (h : question.encode = .ok written)
    (hdrop : octets.drop start = written ++ rest) :
    QuestionAt (DnsName.PlainAt octets) octets start question (start + written.length) := by
  rw [DnsQuestion.encode, DnsName.encodeWire_eq_ok, Except.ok_bind] at h
  obtain rfl := (Except.ok.inj h).symm
  obtain ⟨t₁, t₂, htype, hcode⟩ := Octet.exists_toBE16 question.recordType.code
  obtain ⟨c₁, c₂, hclass, hclassOf⟩ := Octet.exists_toBE16 question.class_
  rw [htype, hclass] at hdrop ⊢
  simp only [List.append_assoc] at hdrop
  obtain ⟨hname, hrest⟩ := DnsName.plainAt_of_drop hdrop
  refine ⟨_, t₁, t₂, c₁, c₂, rest, hname, hrest, ?_, hclassOf.symm, ?_⟩
  · rw [hcode]
    exact hknown.symm
  · simp only [List.length_append, List.length_cons, List.length_nil]
    omega

theorem recordAt_of_encode {start : ℕ} {record : ResourceRecord} {written rest : List UInt8}
    (hknown : record.recordType.IsKnown) (h : record.encode = .ok written)
    (hdrop : octets.drop start = written ++ rest) :
    RecordAt (DnsName.PlainAt octets) octets start record (start + written.length) := by
  rw [ResourceRecord.encode] at h
  obtain ⟨hlimit, h⟩ := Except.throw_unless.1 h
  rw [DnsName.encodeWire_eq_ok, Except.ok_bind] at h
  obtain rfl := (Except.ok.inj h).symm
  obtain ⟨t₁, t₂, htype, hcode⟩ := Octet.exists_toBE16 record.recordType.code
  obtain ⟨c₁, c₂, hclass, hclassOf⟩ := Octet.exists_toBE16 record.class_
  obtain ⟨l₁, l₂, l₃, l₄, httl, httlOf⟩ := Octet.exists_toBE32 record.ttl
  obtain ⟨r₁, r₂, hlength, hlengthOf⟩ :=
    Octet.exists_toBE16 (UInt16.ofNat record.rdata.length)
  rw [htype, hclass, httl, hlength] at hdrop ⊢
  simp only [List.append_assoc] at hdrop
  obtain ⟨hname, hrest⟩ := DnsName.plainAt_of_drop hdrop
  refine ⟨_, t₁, t₂, c₁, c₂, l₁, l₂, l₃, l₄, r₁, r₂, rest, hname, hrest, ?_, hclassOf.symm,
    httlOf.symm, ?_, ?_⟩
  · rw [hcode]
    exact hknown.symm
  · -- The data fits in the field of its length.
    rw [hlengthOf, UInt16.toNat_ofNat', Nat.mod_eq_of_lt (by omega)]
  · simp only [List.length_append, List.length_cons, List.length_nil]
    omega

/-- Items that are written one after the other stand there one after the other. -/
theorem ItemsAt.of_encode {α : Type} {encode : α → Except ParseError (List UInt8)}
    {itemAt : ℕ → α → ℕ → Prop} {items : List α}
    (h : ∀ item ∈ items, ∀ start written rest, encode item = .ok written →
      octets.drop start = written ++ rest → itemAt start item (start + written.length))
    {start : ℕ} {written : List (List UInt8)} {rest : List UInt8}
    (hwritten : items.mapM encode = .ok written)
    (hdrop : octets.drop start = written.flatten ++ rest) :
    ItemsAt itemAt start items (start + written.flatten.length) ∧
      octets.drop (start + written.flatten.length) = rest := by
  have hitems := Except.mapM_eq_ok.1 hwritten
  clear hwritten
  induction hitems generalizing start with
  | nil => exact ⟨.nil start, hdrop⟩
  | @cons item octetsOf items written hitem _ ih =>
    rw [List.flatten_cons, List.append_assoc] at hdrop
    have hnext : octets.drop (start + octetsOf.length) = written.flatten ++ rest := by
      rw [← List.drop_drop, hdrop, List.drop_left]
    obtain ⟨hat, hrest⟩ := ih (fun item hmem => h item (List.mem_cons_of_mem _ hmem)) hnext
    rw [List.flatten_cons, List.length_append, ← Nat.add_assoc]
    exact ⟨.cons (h item List.mem_cons_self _ _ _ hitem hdrop) hat, hrest⟩

theorem questionsAt_of_encode {start : ℕ} {questions : List DnsQuestion}
    {written : List (List UInt8)} {rest : List UInt8}
    (hknown : ∀ question ∈ questions, question.recordType.IsKnown)
    (hwritten : questions.mapM DnsQuestion.encode = .ok written)
    (hdrop : octets.drop start = written.flatten ++ rest) :
    ItemsAt (QuestionAt (DnsName.PlainAt octets) octets) start questions
        (start + written.flatten.length) ∧
      octets.drop (start + written.flatten.length) = rest := by
  refine ItemsAt.of_encode (fun question hmem start written rest => ?_) hwritten hdrop
  exact questionAt_of_encode (hknown question hmem)

theorem recordsAt_of_encode {start : ℕ} {records : List ResourceRecord}
    {written : List (List UInt8)} {rest : List UInt8}
    (hknown : ∀ record ∈ records, record.recordType.IsKnown)
    (hwritten : records.mapM ResourceRecord.encode = .ok written)
    (hdrop : octets.drop start = written.flatten ++ rest) :
    ItemsAt (RecordAt (DnsName.PlainAt octets) octets) start records
        (start + written.flatten.length) ∧
      octets.drop (start + written.flatten.length) = rest := by
  refine ItemsAt.of_encode (fun record hmem start written rest => ?_) hwritten hdrop
  exact recordAt_of_encode (hknown record hmem)

end Items

/-! ## Messages -/

/-- The numbers of a header, in a row. -/
def DnsHeader.written (header : DnsHeader) : List UInt8 :=
  header.id.toBE ++ header.flags.bits.toBE ++ header.questionCount.toBE ++
    header.answerCount.toBE ++ header.authorityCount.toBE ++ header.additionalCount.toBE

theorem DnsHeader.length_written (header : DnsHeader) : header.written.length = 12 := by
  simp [written]

/-- A header is read from its numbers. -/
theorem DnsHeader.parse_written (header : DnsHeader) : parse header.written = .ok header := by
  obtain ⟨id, ⟨flags⟩, questionCount, answerCount, authorityCount, additionalCount⟩ := header
  obtain ⟨i₁, i₂, hid, rfl⟩ := Octet.exists_toBE16 id
  obtain ⟨f₁, f₂, hflags, rfl⟩ := Octet.exists_toBE16 flags
  obtain ⟨q₁, q₂, hquestions, rfl⟩ := Octet.exists_toBE16 questionCount
  obtain ⟨a₁, a₂, hanswers, rfl⟩ := Octet.exists_toBE16 answerCount
  obtain ⟨n₁, n₂, hauthorities, rfl⟩ := Octet.exists_toBE16 authorityCount
  obtain ⟨d₁, d₂, hadditionals, rfl⟩ := Octet.exists_toBE16 additionalCount
  rw [written, hid, hflags, hquestions, hanswers, hauthorities, hadditionals]
  rfl

/-- What is written of a message is the message, its names without pointers. -/
theorem DnsMessage.messageAt_of_encode {message : DnsMessage} {config : DnsEncodeConfig}
    {octets : List UInt8} (hcounts : message.CountsMatch) (hknown : message.TypesKnown)
    (h : message.encode config = .ok octets) :
    MessageAt (DnsName.PlainAt octets) octets message ∧ message.WithinLimits := by
  rw [encode] at h
  obtain ⟨hlimits, h⟩ := Except.throw_unless.1 h
  obtain ⟨questions, hquestions, h⟩ := Except.bind_eq_ok.1 h
  obtain ⟨answers, hanswers, h⟩ := Except.bind_eq_ok.1 h
  obtain ⟨authorities, hauthorities, h⟩ := Except.bind_eq_ok.1 h
  obtain ⟨additionals, hadditionals, h⟩ := Except.bind_eq_ok.1 h
  obtain ⟨_, h⟩ := Except.throw_unless.1 h
  obtain rfl := (Except.ok.inj h).symm
  -- The counts that are written are those of the header.
  simp only [← hcounts.questions, ← hcounts.answers, ← hcounts.authorities,
    ← hcounts.additionals, UInt16.ofNat_toNat]
  rw [← DnsHeader.written]
  set octets := message.header.written ++ questions.flatten ++ answers.flatten ++
    authorities.flatten ++ additionals.flatten with hoctets
  have hheader : octets.take 12 = message.header.written := by
    rw [hoctets]
    simp only [List.append_assoc]
    rw [← DnsHeader.length_written message.header, List.take_left]
  have hdrop : octets.drop 12 = questions.flatten ++ (answers.flatten ++
      (authorities.flatten ++ (additionals.flatten ++ []))) := by
    rw [hoctets]
    simp only [List.append_assoc, List.append_nil]
    rw [← DnsHeader.length_written message.header, List.drop_left]
  obtain ⟨hquestionsAt, hdrop⟩ := questionsAt_of_encode hknown.questions hquestions hdrop
  obtain ⟨hanswersAt, hdrop⟩ := recordsAt_of_encode hknown.answers hanswers hdrop
  obtain ⟨hauthoritiesAt, hdrop⟩ := recordsAt_of_encode hknown.authorities hauthorities hdrop
  obtain ⟨hadditionalsAt, -⟩ := recordsAt_of_encode hknown.additionals hadditionals hdrop
  have hend : octets.length = 12 + questions.flatten.length + answers.flatten.length +
      authorities.flatten.length + additionals.flatten.length := by
    rw [hoctets]
    simp only [List.length_append, DnsHeader.length_written]
  rw [← hend] at hadditionalsAt
  refine ⟨⟨?_, hcounts.questions.symm, hcounts.answers.symm, hcounts.authorities.symm,
    hcounts.additionals.symm, _, _, _, hquestionsAt, hanswersAt, hauthoritiesAt,
    hadditionalsAt⟩, ?_, ?_⟩
  · rw [hheader, DnsHeader.parse_written]
  · exact not_lt.1 fun hlt => hlimits (.inl hlt)
  · exact not_lt.1 fun hlt => hlimits (.inr hlt)

/-- **What is written of a message is read as the message.** -/
theorem DnsMessage.parse_of_encode {message : DnsMessage} {config : DnsEncodeConfig}
    {octets : List UInt8} (hcounts : message.CountsMatch) (hknown : message.TypesKnown)
    (h : message.encode config = .ok octets) : parse octets = .ok message := by
  obtain ⟨hat, hlimits⟩ := messageAt_of_encode hcounts hknown h
  exact parse_iff.2 ⟨hat.mono fun _ _ _ => DnsName.ShortAt.of_plainAt, hlimits⟩

namespace EncodedSample

/-- A name of one label. -/
def owner : DnsName := ⟨[⟨[0x61], by decide, by decide, by decide, by decide⟩], by decide⟩

/-- An answer with its question. -/
def message : DnsMessage where
  header := ⟨0x1234, ⟨0x8400⟩, 1, 1, 0, 0⟩
  questions := [⟨owner, .a, 1⟩]
  answers := [⟨owner, .a, 1, 300, [192, 0, 2, 1]⟩]
  authorities := []
  additionals := []

/-- Its octets. -/
def octets : List UInt8 :=
  [0x12, 0x34, 0x84, 0, 0, 1, 0, 1, 0, 0, 0, 0, 1, 0x61, 0, 0, 1, 0, 1,
    1, 0x61, 0, 0, 1, 0, 1, 0, 0, 1, 44, 0, 4, 192, 0, 2, 1]

theorem parse_octets : DnsMessage.parse octets = .ok message :=
  @DnsMessage.parse_of_encode message ⟨1232⟩ octets ⟨rfl, rfl, rfl, rfl⟩
    ⟨by decide, by decide, by decide, by decide⟩ (by decide +kernel)

end EncodedSample

end Hns
