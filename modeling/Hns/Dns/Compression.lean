import Hns.Dns.Message

/-!
# Names in messages

How a name stands in a message: its labels, one after the other, up to the
empty one or to a pointer to where the rest of the name stands (`NameAt`). The
parser reads just these names, if they take no more than sixteen pointers
(`parseWire_iff`), and so it is with a whole message (`parse_iff`).
-/

namespace Hns

namespace DnsName

/-- The labels of a name stand at the offset, up to `stop`, where so many pointers are followed,
    each from an offset to another one as `follows` allows. -/
inductive NameAt (follows : ℕ → ℕ → Prop) (message : List UInt8) :
    ℕ → ℕ → List DnsLabel → ℕ → Prop
  | root {offset : ℕ} : message[offset]? = some 0 → NameAt follows message 0 offset [] (offset + 1)
  | label {jumps offset stop : ℕ} {length : UInt8} {label : DnsLabel} {labels : List DnsLabel} :
      message[offset]? = some length → length &&& 0xc0 = 0 → length ≠ 0 →
        offset + 1 + length.toNat ≤ message.length →
        DnsLabel.ofBytes ((message.drop (offset + 1)).take length.toNat) = some label →
        NameAt follows message jumps (offset + 1 + length.toNat) labels stop →
        NameAt follows message jumps offset (label :: labels) stop
  | pointer {jumps offset stop : ℕ} {length next : UInt8} {labels : List DnsLabel} :
      message[offset]? = some length → length &&& 0xc0 = 0xc0 → message[offset + 1]? = some next →
        follows offset ((length &&& 0x3f).toNat * 256 + next.toNat) →
        NameAt follows message jumps ((length &&& 0x3f).toNat * 256 + next.toNat) labels stop →
        NameAt follows message (jumps + 1) offset labels (offset + 2)

/-- Any pointer may be followed. -/
abbrev anywhere : ℕ → ℕ → Prop := fun _ _ => True

/-- Pointers point back. -/
abbrev backwards : ℕ → ℕ → Prop := fun offset target => target < offset

section NameAt

variable {follows : ℕ → ℕ → Prop} {message : List UInt8}

theorem NameAt.mono {jumps offset stop : ℕ} {labels : List DnsLabel}
    (h : NameAt follows message jumps offset labels stop) :
    NameAt anywhere message jumps offset labels stop := by
  induction h with
  | root hget => exact .root hget
  | label hget hlabel hne hfits hbytes _ ih => exact .label hget hlabel hne hfits hbytes ih
  | pointer hget hpointer hnext _ _ ih => exact .pointer hget hpointer hnext trivial ih

theorem NameAt.offset_lt {jumps offset stop : ℕ} {labels : List DnsLabel}
    (h : NameAt follows message jumps offset labels stop) : offset < message.length := by
  cases h with
  | root hget => exact (List.getElem?_eq_some_iff.1 hget).1
  | label hget => exact (List.getElem?_eq_some_iff.1 hget).1
  | pointer hget => exact (List.getElem?_eq_some_iff.1 hget).1

/-- What stands at an offset is one name. -/
theorem NameAt.unique {jumps jumps' offset stop stop' : ℕ} {labels labels' : List DnsLabel}
    (h : NameAt anywhere message jumps offset labels stop)
    (h' : NameAt anywhere message jumps' offset labels' stop') :
    jumps = jumps' ∧ labels = labels' ∧ stop = stop' := by
  have hzero : ¬(0 : UInt8) &&& 0xc0 = 0xc0 := by decide
  have hmarks : ∀ {length : UInt8}, length &&& 0xc0 = 0 → ¬length &&& 0xc0 = 0xc0 := by
    intro length h
    rw [h]
    decide
  induction h generalizing jumps' labels' stop' with
  | root hget =>
    cases h' with
    | root => exact ⟨rfl, rfl, rfl⟩
    | label hget' _ hne =>
      rw [hget] at hget'
      exact absurd (Option.some.inj hget').symm hne
    | pointer hget' hpointer =>
      rw [hget] at hget'
      rw [← Option.some.inj hget'] at hpointer
      exact absurd hpointer hzero
  | label hget hlabel hne _ hbytes _ ih =>
    cases h' with
    | root hget' =>
      rw [hget] at hget'
      exact absurd (Option.some.inj hget') hne
    | label hget' _ _ _ hbytes' hrest =>
      rw [hget] at hget'
      obtain rfl := Option.some.inj hget'
      obtain ⟨hjumps, hlabels, hstop⟩ := ih hrest
      rw [hbytes] at hbytes'
      exact ⟨hjumps, by rw [Option.some.inj hbytes', hlabels], hstop⟩
    | pointer hget' hpointer =>
      rw [hget] at hget'
      rw [← Option.some.inj hget'] at hpointer
      exact absurd hpointer (hmarks hlabel)
  | pointer hget hpointer hnext _ _ ih =>
    cases h' with
    | root hget' =>
      rw [hget] at hget'
      rw [Option.some.inj hget'] at hpointer
      exact absurd hpointer hzero
    | label hget' hlabel =>
      rw [hget] at hget'
      rw [← Option.some.inj hget'] at hlabel
      exact absurd hpointer (hmarks hlabel)
    | pointer hget' _ hnext' _ hrest =>
      rw [hget] at hget'
      rw [hnext] at hnext'
      obtain rfl := Option.some.inj hget'
      obtain rfl := Option.some.inj hnext'
      obtain ⟨hjumps, hlabels, -⟩ := ih hrest
      exact ⟨by rw [hjumps], hlabels, rfl⟩

end NameAt

/-! ## The parser -/

/-- The most pointers that are followed. -/
def maxJumps : ℕ := 16

/-- A name that is read stands there. -/
theorem nameAt_of_parseWireLoop {message : List UInt8} {fuel : ℕ} {labels name : DnsName}
    {cursor stop jumps : ℕ} {consumed : Option ℕ}
    (h : parseWireLoop message fuel labels cursor consumed jumps = .ok (name, stop))
    (hjumps : jumps ≤ maxJumps) :
    ∃ more rest last, NameAt anywhere message more cursor rest last ∧
      name.labels = labels.labels ++ rest ∧ jumps + more ≤ maxJumps ∧ stop = consumed.getD last := by
  induction fuel generalizing labels cursor consumed jumps with
  | zero => cases h
  | succ fuel ih =>
    obtain ⟨length, hget, h⟩ := Except.bind_eq_ok.1 h
    rw [Except.ofOption_eq_ok] at hget
    by_cases hpointer : length &&& 0xc0 = 0xc0
    · rw [if_pos hpointer] at h
      obtain ⟨next, hnext, h⟩ := Except.bind_eq_ok.1 h
      rw [Except.ofOption_eq_ok] at hnext
      obtain ⟨_, h⟩ := Except.throw_unless.1 h
      obtain ⟨hmore, h⟩ := Except.throw_unless.1 h
      obtain ⟨more, rest, last, hat, hname, hmost, hstop⟩ := ih h (not_lt.1 hmore)
      refine ⟨more + 1, rest, cursor + 2, .pointer hget hpointer hnext trivial hat, hname, ?_, ?_⟩
      · rw [Nat.add_comm more, ← Nat.add_assoc]
        exact hmost
      · rw [hstop, Option.getD_some]
    rw [if_neg hpointer] at h
    by_cases hlabel : length &&& 0xc0 ≠ 0
    · rw [if_pos hlabel] at h
      cases h
    rw [if_neg hlabel] at h
    by_cases hzero : length = 0
    · rw [if_pos hzero] at h
      cases h
      rw [hzero] at hget
      exact ⟨0, [], cursor + 1, .root hget, (List.append_nil _).symm, hjumps, rfl⟩
    · rw [if_neg hzero] at h
      obtain ⟨hfits, h⟩ := Except.throw_unless.1 h
      obtain ⟨label, hbytes, h⟩ := Except.bind_eq_ok.1 h
      obtain ⟨longer, hlonger, h⟩ := Except.bind_eq_ok.1 h
      rw [Except.ofOption_eq_ok] at hbytes hlonger
      obtain ⟨more, rest, last, hat, hname, hmost, hstop⟩ := ih h hjumps
      refine ⟨more, label :: rest, last, ?_, ?_, hmost, hstop⟩
      · exact .label hget (not_not.1 hlabel) hzero (not_lt.1 hfits) hbytes hat
      · rw [hname, ofLabels_eq_some.1 hlonger, List.append_assoc]
        rfl

/-- The rounds that it takes to read a name. -/
theorem parseWireLoop_of_nameAt {message : List UInt8} {more cursor last : ℕ}
    {rest : List DnsLabel} (hat : NameAt anywhere message more cursor rest last) {fuel : ℕ}
    {labels name : DnsName} {consumed : Option ℕ} {jumps : ℕ}
    (hname : name.labels = labels.labels ++ rest) (hmost : jumps + more ≤ maxJumps)
    (hfuel : rest.length + more < fuel) :
    parseWireLoop message fuel labels cursor consumed jumps = .ok (name, consumed.getD last) := by
  induction hat generalizing fuel labels consumed jumps with
  | root hget =>
    obtain ⟨fuel, rfl⟩ := Nat.exists_eq_add_of_lt hfuel
    obtain rfl : labels = name := ext (by simp [hname])
    rw [parseWireLoop, hget]
    rfl
  | @label more offset last length label rest hget hlabel hne hfits hbytes _ ih =>
    obtain ⟨fuel, rfl⟩ := Nat.exists_eq_add_of_lt hfuel
    have hlen : labelsLen (labels.labels ++ [label]) ≤ maxDnsNameLen := by
      refine le_trans ?_ name.length_le
      rw [hname]
      simp only [labelsLen_append, labelsLen_cons, labelsLen_nil]
      omega
    have hpointer : ¬length &&& 0xc0 = 0xc0 := by
      rw [hlabel]
      decide
    rw [parseWireLoop, hget]
    simp only [Except.ofOption_some, Except.ok_bind, hlabel, hne, ne_eq, not_true_eq_false, if_false,
      hbytes]
    rw [if_neg (by decide), if_neg (not_lt.2 hfits), ofLabels, dif_pos hlen]
    simp only [Except.ofOption_some, Except.ok_bind]
    refine ih (by simp [hname]) hmost ?_
    rw [List.length_cons]
    omega
  | @pointer more offset last length next rest hget hpointer hnext _ hat ih =>
    obtain ⟨fuel, rfl⟩ := Nat.exists_eq_add_of_lt hfuel
    have hinside := not_le.2 hat.offset_lt
    have hjumps : ¬16 < jumps + 1 := by
      rw [maxJumps] at hmost
      omega
    rw [parseWireLoop, hget]
    simp only [Except.ofOption_some, Except.ok_bind]
    rw [if_pos hpointer, hnext]
    simp only [Except.ofOption_some, Except.ok_bind]
    rw [if_neg hinside, if_neg hjumps]
    refine (ih hname (by omega) ?_).trans rfl
    omega

theorem length_le_of_labels (name : DnsName) : name.labels.length ≤ maxDnsNameLen := by
  have hcount (labels : List DnsLabel) : labels.length ≤ labelsLen labels := by
    induction labels with
    | nil => exact le_rfl
    | cons label labels ih =>
      rw [List.length_cons, labelsLen_cons]
      omega
  exact (hcount name.labels).trans name.length_le

/-- A name that stands at an offset, after at most sixteen pointers. -/
def ShortAt (message : List UInt8) (offset : ℕ) (name : DnsName) (stop : ℕ) : Prop :=
  ∃ jumps ≤ maxJumps, NameAt anywhere message jumps offset name.labels stop

/-- A name that stands at an offset, with pointers that point back. -/
def BackAt (message : List UInt8) (offset : ℕ) (name : DnsName) (stop : ℕ) : Prop :=
  ∃ jumps, NameAt backwards message jumps offset name.labels stop

/-- A name that stands at an offset without pointers. -/
def PlainAt (message : List UInt8) (offset : ℕ) (name : DnsName) (stop : ℕ) : Prop :=
  ∃ rest, message.drop offset = wire name.labels ++ rest ∧
    stop = offset + (wire name.labels).length

/-- The parser reads just the names that take at most sixteen pointers. -/
theorem parseWire_iff {message : List UInt8} {offset stop : ℕ} {name : DnsName} :
    parseWire message offset = .ok (name, stop) ↔ ShortAt message offset name stop := by
  constructor
  · intro h
    obtain ⟨more, rest, last, hat, hname, hmost, hstop⟩ :=
      nameAt_of_parseWireLoop h (Nat.zero_le _)
    rw [Nat.zero_add] at hmost
    obtain rfl : stop = last := hstop
    have hlabels : name.labels = rest := hname
    rw [← hlabels] at hat
    exact ⟨more, hmost, hat⟩
  · rintro ⟨jumps, hjumps, hat⟩
    refine parseWireLoop_of_nameAt hat rfl ((Nat.zero_add jumps).le.trans hjumps) ?_
    have hlength := length_le_of_labels name
    calc name.labels.length + jumps ≤ maxDnsNameLen + maxJumps := Nat.add_le_add hlength hjumps
      _ < 270 := by decide

theorem ShortAt.of_plainAt {message : List UInt8} {offset stop : ℕ} {name : DnsName}
    (h : PlainAt message offset name stop) : ShortAt message offset name stop := by
  obtain ⟨rest, hdrop, rfl⟩ := h
  refine parseWire_iff.1 (parseWireLoop_wire hdrop rfl ?_)
  exact lt_of_le_of_lt (length_le_of_labels name) (by decide)

/-- A name with pointers that point back is the one that is read, if one is. -/
theorem BackAt.eq_of_shortAt {message : List UInt8} {offset stop stop' : ℕ} {name name' : DnsName}
    (h : BackAt message offset name stop) (h' : ShortAt message offset name' stop') :
    name = name' ∧ stop = stop' := by
  obtain ⟨jumps, hat⟩ := h
  obtain ⟨jumps', -, hat'⟩ := h'
  obtain ⟨-, hlabels, rfl⟩ := hat.mono.unique hat'
  exact ⟨ext hlabels, rfl⟩

end DnsName

/-! ## Messages -/

/-- The items stand one after the other, from the offset up to `stop`. -/
inductive ItemsAt {α : Type} (itemAt : ℕ → α → ℕ → Prop) : ℕ → List α → ℕ → Prop
  | nil (offset : ℕ) : ItemsAt itemAt offset [] offset
  | cons {offset next stop : ℕ} {item : α} {items : List α} : itemAt offset item next →
      ItemsAt itemAt next items stop → ItemsAt itemAt offset (item :: items) stop

section ItemsAt

variable {α β : Type} {itemAt : ℕ → α → ℕ → Prop}

/-- A reader of items reads just the items that stand there. -/
theorem parseItems_iff {parse : List UInt8 → ℕ → Except ParseError (α × ℕ)} {message : List UInt8}
    (h : ∀ start item stop, parse message start = .ok (item, stop) ↔ itemAt start item stop)
    {count offset stop : ℕ} {items : List α} :
    parseItems parse message count offset = .ok (items, stop) ↔
      items.length = count ∧ ItemsAt itemAt offset items stop := by
  induction count generalizing offset items with
  | zero =>
    constructor
    · rintro ⟨⟩
      exact ⟨rfl, .nil _⟩
    · rintro ⟨hlength, hitems⟩
      obtain rfl := List.length_eq_zero_iff.1 hlength
      cases hitems
      rfl
  | succ count ih =>
    constructor
    · intro hparse
      obtain ⟨⟨item, next⟩, hitem, hparse⟩ := Except.bind_eq_ok.1 hparse
      obtain ⟨⟨items', stop'⟩, hitems, hparse⟩ := Except.bind_eq_ok.1 hparse
      cases hparse
      obtain ⟨hlength, hat⟩ := ih.1 hitems
      exact ⟨congrArg (· + 1) hlength, .cons ((h _ _ _).1 hitem) hat⟩
    · rintro ⟨hlength, hitems⟩
      cases hitems with
      | nil => cases hlength
      | cons hitem hat =>
        rw [parseItems, (h _ _ _).2 hitem, Except.ok_bind]
        dsimp only
        rw [ih.2 ⟨Nat.succ.inj hlength, hat⟩]
        rfl

theorem ItemsAt.imp {itemAt' : ℕ → β → ℕ → Prop} {f : α → β}
    (h : ∀ start item stop, itemAt start item stop → itemAt' start (f item) stop)
    {offset stop : ℕ} {items : List α} (hitems : ItemsAt itemAt offset items stop) :
    ItemsAt itemAt' offset (items.map f) stop := by
  induction hitems with
  | nil offset => exact .nil offset
  | cons hitem _ ih => exact .cons (h _ _ _ hitem) ih

theorem ItemsAt.forall_mem {motive : α → Prop}
    (h : ∀ start item stop, itemAt start item stop → motive item) {offset stop : ℕ} {items : List α}
    (hitems : ItemsAt itemAt offset items stop) : ∀ item ∈ items, motive item := by
  induction hitems with
  | nil => exact fun _ hmem => absurd hmem List.not_mem_nil
  | cons hitem _ ih => exact List.forall_mem_cons.2 ⟨h _ _ _ hitem, ih⟩

/-- As many items as stand there in one way stand there in another way, if each one does. -/
theorem ItemsAt.unique {itemAt' : ℕ → α → ℕ → Prop}
    (h : ∀ start item item' stop stop', itemAt start item stop → itemAt' start item' stop' →
      item = item' ∧ stop = stop')
    {offset stop stop' : ℕ} {items items' : List α} (hlength : items.length = items'.length)
    (hitems : ItemsAt itemAt offset items stop) (hitems' : ItemsAt itemAt' offset items' stop') :
    items = items' ∧ stop = stop' := by
  induction hitems generalizing items' with
  | nil =>
    obtain rfl := List.length_eq_zero_iff.1 hlength.symm
    cases hitems'
    exact ⟨rfl, rfl⟩
  | cons hitem _ ih =>
    cases hitems' with
    | nil => cases hlength
    | cons hitem' hrest =>
      obtain ⟨rfl, rfl⟩ := h _ _ _ _ _ hitem hitem'
      obtain ⟨rfl, rfl⟩ := ih (Nat.succ.inj hlength) hrest
      exact ⟨rfl, rfl⟩

end ItemsAt

/-- A question stands at the offset, its name as `nameAt` says. -/
def QuestionAt (nameAt : ℕ → DnsName → ℕ → Prop) (message : List UInt8) (offset : ℕ)
    (question : DnsQuestion) (stop : ℕ) : Prop :=
  ∃ cursor t₁ t₂ c₁ c₂ rest, nameAt offset question.name cursor ∧
    message.drop cursor = t₁ :: t₂ :: c₁ :: c₂ :: rest ∧
    question.recordType = .fromCode (Octet.be16 t₁ t₂) ∧ question.class_ = Octet.be16 c₁ c₂ ∧
    stop = cursor + 4

/-- A record stands at the offset, its name as `nameAt` says. -/
def RecordAt (nameAt : ℕ → DnsName → ℕ → Prop) (message : List UInt8) (offset : ℕ)
    (record : ResourceRecord) (stop : ℕ) : Prop :=
  ∃ cursor t₁ t₂ c₁ c₂ l₁ l₂ l₃ l₄ r₁ r₂ rest, nameAt offset record.name cursor ∧
    message.drop cursor =
      t₁ :: t₂ :: c₁ :: c₂ :: l₁ :: l₂ :: l₃ :: l₄ :: r₁ :: r₂ :: (record.rdata ++ rest) ∧
    record.recordType = .fromCode (Octet.be16 t₁ t₂) ∧ record.class_ = Octet.be16 c₁ c₂ ∧
    record.ttl = Octet.be32 l₁ l₂ l₃ l₄ ∧ (Octet.be16 r₁ r₂).toNat = record.rdata.length ∧
    stop = cursor + 10 + record.rdata.length

/-- A message is what the octets say, its names as `nameAt` says. -/
structure MessageAt (nameAt : ℕ → DnsName → ℕ → Prop) (octets : List UInt8)
    (message : DnsMessage) : Prop where
  header : DnsHeader.parse (octets.take 12) = .ok message.header
  questionCount : message.questions.length = message.header.questionCount.toNat
  answerCount : message.answers.length = message.header.answerCount.toNat
  authorityCount : message.authorities.length = message.header.authorityCount.toNat
  additionalCount : message.additionals.length = message.header.additionalCount.toNat
  sections : ∃ a b c, ItemsAt (QuestionAt nameAt octets) 12 message.questions a ∧
    ItemsAt (RecordAt nameAt octets) a message.answers b ∧
    ItemsAt (RecordAt nameAt octets) b message.authorities c ∧
    ItemsAt (RecordAt nameAt octets) c message.additionals octets.length

theorem MessageAt.mono {octets : List UInt8} {nameAt nameAt' : ℕ → DnsName → ℕ → Prop}
    (h : ∀ start name stop, nameAt start name stop → nameAt' start name stop) {message : DnsMessage}
    (hat : MessageAt nameAt octets message) : MessageAt nameAt' octets message := by
  have hquestion : ∀ start question stop, QuestionAt nameAt octets start question stop →
      QuestionAt nameAt' octets start (id question) stop := by
    rintro start question stop ⟨cursor, t₁, t₂, c₁, c₂, rest, hname, hrest⟩
    exact ⟨cursor, t₁, t₂, c₁, c₂, rest, h _ _ _ hname, hrest⟩
  have hrecord : ∀ start record stop, RecordAt nameAt octets start record stop →
      RecordAt nameAt' octets start (id record) stop := by
    rintro start record stop ⟨cursor, t₁, t₂, c₁, c₂, l₁, l₂, l₃, l₄, r₁, r₂, rest, hname, hrest⟩
    exact ⟨cursor, t₁, t₂, c₁, c₂, l₁, l₂, l₃, l₄, r₁, r₂, rest, h _ _ _ hname, hrest⟩
  obtain ⟨a, b, c, hquestions, hanswers, hauthorities, hadditionals⟩ := hat.sections
  refine { hat with sections := ⟨a, b, c, ?_, ?_, ?_, ?_⟩ }
  · exact List.map_id message.questions ▸ hquestions.imp hquestion
  · exact List.map_id message.answers ▸ hanswers.imp hrecord
  · exact List.map_id message.authorities ▸ hauthorities.imp hrecord
  · exact List.map_id message.additionals ▸ hadditionals.imp hrecord

theorem questionAt_iff {message : List UInt8} {offset stop : ℕ} {question : DnsQuestion} :
    DnsQuestion.parse message offset = .ok (question, stop) ↔
      QuestionAt (DnsName.ShortAt message) message offset question stop := by
  constructor
  · intro h
    obtain ⟨⟨name, cursor⟩, hname, h⟩ := Except.bind_eq_ok.1 h
    dsimp only at h
    split at h
    · rename_i t₁ t₂ c₁ c₂ rest hdrop
      cases h
      exact ⟨cursor, t₁, t₂, c₁, c₂, rest, DnsName.parseWire_iff.1 hname, hdrop, rfl, rfl, rfl⟩
    · cases h
  · rintro ⟨cursor, t₁, t₂, c₁, c₂, rest, hname, hdrop, htype, hclass, rfl⟩
    obtain ⟨name, recordType, class_⟩ := question
    obtain rfl : recordType = _ := htype
    obtain rfl : class_ = _ := hclass
    rw [DnsQuestion.parse, DnsName.parseWire_iff.2 hname, Except.ok_bind]
    dsimp only
    rw [hdrop]
    rfl

theorem recordAt_iff {message : List UInt8} {offset stop : ℕ} {record : ResourceRecord} :
    ResourceRecord.parse message offset = .ok (record, stop) ↔
      RecordAt (DnsName.ShortAt message) message offset record stop := by
  constructor
  · intro h
    obtain ⟨⟨name, cursor⟩, hname, h⟩ := Except.bind_eq_ok.1 h
    dsimp only at h
    split at h
    · rename_i t₁ t₂ c₁ c₂ l₁ l₂ l₃ l₄ r₁ r₂ tail hdrop
      obtain ⟨_, h⟩ := Except.throw_unless.1 h
      obtain ⟨hfits, h⟩ := Except.throw_unless.1 h
      cases h
      have htail : message.drop (cursor + 10) = tail := by
        rw [← List.drop_drop, hdrop]
        rfl
      have hlength : (Octet.be16 r₁ r₂).toNat ≤ tail.length := by
        rw [← htail, List.length_drop]
        omega
      refine ⟨cursor, t₁, t₂, c₁, c₂, l₁, l₂, l₃, l₄, r₁, r₂, tail.drop (Octet.be16 r₁ r₂).toNat,
        DnsName.parseWire_iff.1 hname, ?_, rfl, rfl, rfl, ?_, ?_⟩
      · rw [htail, List.take_append_drop]
        exact hdrop
      · rw [htail, List.length_take, min_eq_left hlength]
      · rw [htail, List.length_take, min_eq_left hlength]
    · cases h
  · rintro ⟨cursor, t₁, t₂, c₁, c₂, l₁, l₂, l₃, l₄, r₁, r₂, rest, hname, hdrop, htype, hclass, httl,
      hlength, rfl⟩
    obtain ⟨name, recordType, class_, ttl, rdata⟩ := record
    obtain rfl : recordType = _ := htype
    obtain rfl : class_ = _ := hclass
    obtain rfl : ttl = _ := httl
    dsimp only at hlength hdrop
    have htail : message.drop (cursor + 10) = rdata ++ rest := by
      rw [← List.drop_drop, hdrop]
      rfl
    have hlimit : ¬maxRdataLen < (Octet.be16 r₁ r₂).toNat :=
      not_lt.2 (Nat.le_of_lt_succ (Octet.be16 r₁ r₂).toNat_lt)
    have hfits : ¬message.length < cursor + 10 + rdata.length := by
      have hlengths := congrArg List.length hdrop
      simp only [List.length_drop, List.length_cons, List.length_append] at hlengths
      omega
    rw [ResourceRecord.parse, DnsName.parseWire_iff.2 hname, Except.ok_bind]
    dsimp only
    rw [hdrop]
    dsimp only
    rw [if_neg hlimit, hlength, if_neg hfits, htail, List.take_left]
    rfl

theorem length_of_header {octets : List UInt8} {header : DnsHeader}
    (h : DnsHeader.parse (octets.take 12) = .ok header) : 12 ≤ octets.length := by
  unfold DnsHeader.parse at h
  split at h
  · rename_i heq
    have hlength := congrArg List.length heq
    simp only [List.length_take, List.length_cons] at hlength
    omega
  · cases h

/-- The limits of the parser on the numbers of questions and records. -/
structure DnsMessage.WithinLimits (message : DnsMessage) : Prop where
  questions : message.questions.length ≤ maxDnsQuestions
  records : message.totalRecords ≤ maxDnsRecords

/-- The parser reads just the messages, if their names take at most sixteen pointers and if they are
    within the limits. -/
theorem parse_iff {octets : List UInt8} {message : DnsMessage} :
    DnsMessage.parse octets = .ok message ↔
      MessageAt (DnsName.ShortAt octets) octets message ∧ message.WithinLimits := by
  constructor
  · intro h
    rw [DnsMessage.parse] at h
    obtain ⟨hlength, h⟩ := Except.throw_unless.1 h
    obtain ⟨header, hheader, h⟩ := Except.bind_eq_ok.1 h
    obtain ⟨hquestionLimit, h⟩ := Except.throw_unless.1 h
    obtain ⟨hrecordLimit, h⟩ := Except.throw_unless.1 h
    obtain ⟨⟨questions, a⟩, hquestions, h⟩ := Except.bind_eq_ok.1 h
    obtain ⟨⟨answers, b⟩, hanswers, h⟩ := Except.bind_eq_ok.1 h
    obtain ⟨⟨authorities, c⟩, hauthorities, h⟩ := Except.bind_eq_ok.1 h
    obtain ⟨⟨additionals, d⟩, hadditionals, h⟩ := Except.bind_eq_ok.1 h
    obtain ⟨hend, h⟩ := Except.throw_unless.1 h
    cases h
    obtain ⟨hquestionCount, hquestions⟩ := (parseItems_iff fun _ _ _ => questionAt_iff).1 hquestions
    obtain ⟨hanswerCount, hanswers⟩ := (parseItems_iff fun _ _ _ => recordAt_iff).1 hanswers
    obtain ⟨hauthorityCount, hauthorities⟩ :=
      (parseItems_iff fun _ _ _ => recordAt_iff).1 hauthorities
    obtain ⟨hadditionalCount, hadditionals⟩ :=
      (parseItems_iff fun _ _ _ => recordAt_iff).1 hadditionals
    obtain rfl := not_not.1 hend
    refine ⟨⟨hheader, hquestionCount, hanswerCount, hauthorityCount, hadditionalCount,
      a, b, c, hquestions, hanswers, hauthorities, hadditionals⟩, ?_, ?_⟩
    · rw [hquestionCount]
      exact not_lt.1 hquestionLimit
    · rw [DnsMessage.totalRecords, hanswerCount, hauthorityCount, hadditionalCount]
      exact not_lt.1 hrecordLimit
  · rintro ⟨hat, hlimits⟩
    obtain ⟨a, b, c, hquestions, hanswers, hauthorities, hadditionals⟩ := hat.sections
    have hlength : ¬octets.length < 12 := not_lt.2 (length_of_header hat.header)
    have hquestionLimit : ¬maxDnsQuestions < message.header.questionCount.toNat := by
      rw [← hat.questionCount]
      exact not_lt.2 hlimits.questions
    have hrecordLimit : ¬maxDnsRecords < message.header.answerCount.toNat +
        message.header.authorityCount.toNat + message.header.additionalCount.toNat := by
      rw [← hat.answerCount, ← hat.authorityCount, ← hat.additionalCount]
      exact not_lt.2 hlimits.records
    have hparseQuestions := (parseItems_iff fun _ _ _ => questionAt_iff).2
      ⟨hat.questionCount, hquestions⟩
    have hparseAnswers := (parseItems_iff fun _ _ _ => recordAt_iff).2 ⟨hat.answerCount, hanswers⟩
    have hparseAuthorities := (parseItems_iff fun _ _ _ => recordAt_iff).2
      ⟨hat.authorityCount, hauthorities⟩
    have hparseAdditionals := (parseItems_iff fun _ _ _ => recordAt_iff).2
      ⟨hat.additionalCount, hadditionals⟩
    rw [DnsMessage.parse, if_neg hlength, hat.header, Except.ok_bind]
    dsimp only
    rw [if_neg hquestionLimit, if_neg hrecordLimit, hparseQuestions, Except.ok_bind]
    dsimp only [parseRecords]
    rw [hparseAnswers, Except.ok_bind]
    dsimp only
    rw [hparseAuthorities, Except.ok_bind]
    dsimp only
    rw [hparseAdditionals, Except.ok_bind]
    dsimp only
    rw [if_neg (not_not.2 rfl)]
    rfl

/-! ## One reading -/

section Unique

variable {octets : List UInt8} {nameAt nameAt' : ℕ → DnsName → ℕ → Prop}

theorem QuestionAt.unique
    (h : ∀ start name name' stop stop', nameAt start name stop → nameAt' start name' stop' →
      name = name' ∧ stop = stop')
    (start : ℕ) (question question' : DnsQuestion) (stop stop' : ℕ)
    (hat : QuestionAt nameAt octets start question stop)
    (hat' : QuestionAt nameAt' octets start question' stop') :
    question = question' ∧ stop = stop' := by
  obtain ⟨cursor, t₁, t₂, c₁, c₂, rest, hname, hdrop, htype, hclass, rfl⟩ := hat
  obtain ⟨cursor', t₁', t₂', c₁', c₂', rest', hname', hdrop', htype', hclass', rfl⟩ := hat'
  obtain ⟨hsame, rfl⟩ := h _ _ _ _ _ hname hname'
  rw [hdrop] at hdrop'
  simp only [List.cons.injEq] at hdrop'
  obtain ⟨rfl, rfl, rfl, rfl, -⟩ := hdrop'
  obtain ⟨name, recordType, class_⟩ := question
  obtain ⟨name', recordType', class_'⟩ := question'
  obtain rfl : name = name' := hsame
  obtain rfl : recordType = recordType' := htype.trans htype'.symm
  obtain rfl : class_ = class_' := hclass.trans hclass'.symm
  exact ⟨rfl, rfl⟩

theorem RecordAt.unique
    (h : ∀ start name name' stop stop', nameAt start name stop → nameAt' start name' stop' →
      name = name' ∧ stop = stop')
    (start : ℕ) (record record' : ResourceRecord) (stop stop' : ℕ)
    (hat : RecordAt nameAt octets start record stop)
    (hat' : RecordAt nameAt' octets start record' stop') : record = record' ∧ stop = stop' := by
  obtain ⟨cursor, t₁, t₂, c₁, c₂, l₁, l₂, l₃, l₄, r₁, r₂, rest, hname, hdrop, htype, hclass, httl,
    hlength, rfl⟩ := hat
  obtain ⟨cursor', t₁', t₂', c₁', c₂', l₁', l₂', l₃', l₄', r₁', r₂', rest', hname', hdrop', htype',
    hclass', httl', hlength', rfl⟩ := hat'
  obtain ⟨hsame, rfl⟩ := h _ _ _ _ _ hname hname'
  rw [hdrop] at hdrop'
  simp only [List.cons.injEq] at hdrop'
  obtain ⟨rfl, rfl, rfl, rfl, rfl, rfl, rfl, rfl, rfl, rfl, hrest⟩ := hdrop'
  obtain ⟨hrdata, -⟩ := List.append_inj hrest (hlength.symm.trans hlength')
  obtain ⟨name, recordType, class_, ttl, rdata⟩ := record
  obtain ⟨name', recordType', class_', ttl', rdata'⟩ := record'
  obtain rfl : name = name' := hsame
  obtain rfl : rdata = rdata' := hrdata
  obtain rfl : recordType = recordType' := htype.trans htype'.symm
  obtain rfl : class_ = class_' := hclass.trans hclass'.symm
  obtain rfl : ttl = ttl' := httl.trans httl'.symm
  exact ⟨rfl, rfl⟩

/-- Octets are one message. -/
theorem MessageAt.unique
    (h : ∀ start name name' stop stop', nameAt start name stop → nameAt' start name' stop' →
      name = name' ∧ stop = stop')
    {message message' : DnsMessage} (hat : MessageAt nameAt octets message)
    (hat' : MessageAt nameAt' octets message') : message = message' := by
  have hheader : message.header = message'.header :=
    Except.ok.inj (hat.header.symm.trans hat'.header)
  obtain ⟨a, b, c, hquestions, hanswers, hauthorities, hadditionals⟩ := hat.sections
  obtain ⟨a', b', c', hquestions', hanswers', hauthorities', hadditionals'⟩ := hat'.sections
  have hquestionCount := hat.questionCount.trans (hheader ▸ hat'.questionCount.symm)
  have hanswerCount := hat.answerCount.trans (hheader ▸ hat'.answerCount.symm)
  have hauthorityCount := hat.authorityCount.trans (hheader ▸ hat'.authorityCount.symm)
  have hadditionalCount := hat.additionalCount.trans (hheader ▸ hat'.additionalCount.symm)
  obtain ⟨hq, rfl⟩ := hquestions.unique (QuestionAt.unique h) hquestionCount hquestions'
  obtain ⟨ha, rfl⟩ := hanswers.unique (RecordAt.unique h) hanswerCount hanswers'
  obtain ⟨hn, rfl⟩ := hauthorities.unique (RecordAt.unique h) hauthorityCount hauthorities'
  obtain ⟨hd, -⟩ := hadditionals.unique (RecordAt.unique h) hadditionalCount hadditionals'
  cases message
  cases message'
  rw [DnsMessage.mk.injEq]
  exact ⟨hheader, hq, ha, hn, hd⟩

end Unique

/-- A message with pointers that point back is the one that is read, if one is. -/
theorem eq_of_parse_of_backAt {octets : List UInt8} {message message' : DnsMessage}
    (hat : MessageAt (DnsName.BackAt octets) octets message')
    (h : DnsMessage.parse octets = .ok message) : message = message' := by
  refine ((hat.unique ?_ (parse_iff.1 h).1)).symm
  exact fun start name name' stop stop' hback hshort => hback.eq_of_shortAt hshort

end Hns
