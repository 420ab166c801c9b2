import Hns.Dns.Compression

/-!
# The cursor of a name

The loop of `parse_wire` round by round (`NameCursor.round`), without a bound on
the rounds: a name may point forward, backward or to itself, and still the loop
ends (`parseWire_bounded`), as a round either reads a label, of which only so many
fit, or follows one of the few pointers that are allowed. Where the name ends is
said by its own octets alone (`OwnOctets`), and so the cursor of the records of a
message only moves on (`parseRecords_advances`).
-/

namespace Hns

namespace DnsName

/-- The variables of the loop of `parse_wire`. -/
structure NameCursor where
  labels : DnsName
  cursor : ℕ
  consumed : Option ℕ
  jumps : ℕ

namespace NameCursor

/-- A round of the loop: the name and where it ends, or the variables of the next round. -/
def round (message : List UInt8) (s : NameCursor) :
    Except ParseError ((DnsName × ℕ) ⊕ NameCursor) := do
  let length ← Except.ofOption .unexpectedEof message[s.cursor]?
  let cursor := s.cursor + 1
  if length &&& 0xc0 = 0xc0 then
    let next ← Except.ofOption .unexpectedEof message[cursor]?
    let cursor := cursor + 1
    let pointer := (length &&& 0x3f).toNat * 256 + next.toNat
    if message.length ≤ pointer then throw .invalidDnsPointer
    if 16 < s.jumps + 1 then throw .invalidDnsPointer
    return .inr ⟨s.labels, pointer, some (s.consumed.getD cursor), s.jumps + 1⟩
  else if length &&& 0xc0 ≠ 0 then throw .invalidDnsLabel
  else if length = 0 then return .inl (s.labels, s.consumed.getD cursor)
  else
    let stop := cursor + length.toNat
    if message.length < stop then throw .unexpectedEof
    let label ← Except.ofOption .invalidDnsLabel
      (DnsLabel.ofBytes ((message.drop cursor).take length.toNat))
    let labels ← Except.ofOption .lengthLimit (ofLabels (s.labels.labels ++ [label]))
    return .inr ⟨labels, stop, s.consumed, s.jumps⟩

/-- The round starts at a pointer. -/
def atPointer (message : List UInt8) (s : NameCursor) : Bool :=
  message[s.cursor]?.any fun length => length &&& 0xc0 = 0xc0

/-- The octets of a round that starts with this one: those of a pointer, or of a label. -/
def width (length : UInt8) : ℕ := if length &&& 0xc0 = 0xc0 then 2 else 1 + length.toNat

end NameCursor

/-- The rounds of the loop, each by its variables, and what the loop returns after them. -/
inductive Rounds (message : List UInt8) :
    NameCursor → List NameCursor → Except ParseError (DnsName × ℕ) → Prop
  | fail {s : NameCursor} {e : ParseError} : s.round message = .error e →
      Rounds message s [s] (.error e)
  | done {s : NameCursor} {read : DnsName × ℕ} : s.round message = .ok (.inl read) →
      Rounds message s [s] (.ok read)
  | next {s s' : NameCursor} {rounds : List NameCursor} {result : Except ParseError (DnsName × ℕ)} :
      s.round message = .ok (.inr s') → Rounds message s' rounds result →
        Rounds message s (s :: rounds) result

/-- The octets of a name at an offset end at `stop`: at its empty label, or behind its first pointer,
    wherever that points to. -/
inductive OwnOctets (message : List UInt8) : ℕ → ℕ → Prop
  | root {offset : ℕ} : message[offset]? = some 0 → OwnOctets message offset (offset + 1)
  | pointer {offset : ℕ} {length : UInt8} : message[offset]? = some length →
      length &&& 0xc0 = 0xc0 → offset + 1 < message.length → OwnOctets message offset (offset + 2)
  | label {offset stop : ℕ} {length : UInt8} : message[offset]? = some length → length ≠ 0 →
      length &&& 0xc0 = 0 → OwnOctets message (offset + 1 + length.toNat) stop →
        OwnOctets message offset stop

section Rounds

variable {message : List UInt8}

/-! ## What a round does -/

/-- What a round that does not fail does. -/
theorem round_cases {s : NameCursor} {out : (DnsName × ℕ) ⊕ NameCursor}
    (h : s.round message = .ok out) :
    ∃ length, message[s.cursor]? = some length ∧
      s.cursor + NameCursor.width length ≤ message.length ∧
      ((length &&& 0xc0 = 0xc0 ∧ ∃ s', out = .inr s' ∧ s'.labels = s.labels ∧
          s'.jumps = s.jumps + 1 ∧ s'.jumps ≤ maxJumps) ∨
        (¬length &&& 0xc0 = 0xc0 ∧ ∃ s' label, out = .inr s' ∧
          s'.labels.labels = s.labels.labels ++ [label] ∧ s'.jumps = s.jumps) ∨
        ¬length &&& 0xc0 = 0xc0 ∧ ∃ read, out = .inl read) := by
  obtain ⟨length, hget, h⟩ := Except.bind_eq_ok.1 h
  rw [Except.ofOption_eq_ok] at hget
  have hinside := (List.getElem?_eq_some_iff.1 hget).1
  refine ⟨length, hget, ?_⟩
  by_cases hpointer : length &&& 0xc0 = 0xc0
  · rw [if_pos hpointer] at h
    obtain ⟨next, hnext, h⟩ := Except.bind_eq_ok.1 h
    rw [Except.ofOption_eq_ok] at hnext
    obtain ⟨-, h⟩ := Except.throw_unless.1 h
    obtain ⟨hmore, h⟩ := Except.throw_unless.1 h
    cases h
    rw [NameCursor.width, if_pos hpointer]
    exact ⟨(List.getElem?_eq_some_iff.1 hnext).1, .inl ⟨hpointer, _, rfl, rfl, rfl, not_lt.1 hmore⟩⟩
  rw [if_neg hpointer] at h
  rw [NameCursor.width, if_neg hpointer]
  by_cases hlabel : length &&& 0xc0 ≠ 0
  · rw [if_pos hlabel] at h
    cases h
  rw [if_neg hlabel] at h
  by_cases hzero : length = 0
  · rw [if_pos hzero] at h
    cases h
    rw [hzero]
    exact ⟨hinside, .inr (.inr ⟨by decide, _, rfl⟩)⟩
  · rw [if_neg hzero] at h
    obtain ⟨hfits, h⟩ := Except.throw_unless.1 h
    obtain ⟨label, -, h⟩ := Except.bind_eq_ok.1 h
    obtain ⟨longer, hlonger, h⟩ := Except.bind_eq_ok.1 h
    rw [Except.ofOption_eq_ok] at hlonger
    cases h
    refine ⟨?_, .inr (.inl ⟨hpointer, _, label, rfl, ofLabels_eq_some.1 hlonger, rfl⟩)⟩
    omega

/-- A round of the loop, and the rounds after it. -/
theorem parseWireLoop_succ (fuel : ℕ) (s : NameCursor) :
    parseWireLoop message (fuel + 1) s.labels s.cursor s.consumed s.jumps =
      s.round message >>= fun
        | .inl read => .ok read
        | .inr s' => parseWireLoop message fuel s'.labels s'.cursor s'.consumed s'.jumps := by
  rw [parseWireLoop, NameCursor.round]
  cases message[s.cursor]? with
  | none => rfl
  | some length =>
    simp only [Except.ofOption_some, Except.ok_bind]
    by_cases hpointer : length &&& 0xc0 = 0xc0
    · rw [if_pos hpointer, if_pos hpointer]
      cases message[s.cursor + 1]? with
      | none => rfl
      | some next =>
        simp only [Except.ofOption_some, Except.ok_bind]
        by_cases hinside : message.length ≤ (length &&& 0x3f).toNat * 256 + next.toNat
        · rw [if_pos hinside, if_pos hinside]
          rfl
        rw [if_neg hinside, if_neg hinside]
        by_cases hmore : 16 < s.jumps + 1
        · rw [if_pos hmore, if_pos hmore]
          rfl
        · rw [if_neg hmore, if_neg hmore]
          rfl
    rw [if_neg hpointer, if_neg hpointer]
    by_cases hlabel : length &&& 0xc0 ≠ 0
    · rw [if_pos hlabel, if_pos hlabel]
      rfl
    rw [if_neg hlabel, if_neg hlabel]
    by_cases hzero : length = 0
    · rw [if_pos hzero, if_pos hzero]
      rfl
    rw [if_neg hzero, if_neg hzero]
    by_cases hfits : message.length < s.cursor + 1 + length.toNat
    · rw [if_pos hfits, if_pos hfits]
      rfl
    rw [if_neg hfits, if_neg hfits]
    cases DnsLabel.ofBytes ((message.drop (s.cursor + 1)).take length.toNat) with
    | none => rfl
    | some label =>
      simp only [Except.ofOption_some, Except.ok_bind]
      cases ofLabels (s.labels.labels ++ [label]) <;> rfl

/-! ## The loop -/

/-- What remains of the limits: a round takes something of it. -/
def NameCursor.left (s : NameCursor) : ℕ :=
  (maxDnsNameLen - labelsLen s.labels.labels) + (maxJumps - s.jumps)

theorem left_lt_of_round {s s' : NameCursor} (h : s.round message = .ok (.inr s')) :
    s'.left < s.left := by
  obtain ⟨length, -, -, ⟨-, s', hs', hlabels, hjumps, hle⟩ |
    ⟨-, s', label, hs', hlabels, hjumps⟩ | ⟨-, read, hread⟩⟩ := round_cases h
  · obtain rfl := Sum.inr.inj hs'
    rw [NameCursor.left, NameCursor.left, hlabels]
    omega
  · obtain rfl := Sum.inr.inj hs'
    have hlimit := s'.labels.length_le
    rw [hlabels, labelsLen_append, labelsLen_cons, labelsLen_nil] at hlimit
    rw [NameCursor.left, NameCursor.left, hlabels, hjumps, labelsLen_append, labelsLen_cons,
      labelsLen_nil]
    omega
  · cases hread

/-- With enough fuel, the loop of the parser is the rounds up to the one that returns. -/
theorem exists_rounds {fuel : ℕ} {s : NameCursor} (hfuel : s.left < fuel) :
    ∃ rounds, Rounds message s rounds
        (parseWireLoop message fuel s.labels s.cursor s.consumed s.jumps) ∧
      rounds.length ≤ s.left + 1 := by
  induction fuel generalizing s with
  | zero => cases hfuel
  | succ fuel ih =>
    rw [parseWireLoop_succ]
    rcases hround : s.round message with e | read | s'
    · exact ⟨[s], .fail hround, Nat.le_add_left _ _⟩
    · exact ⟨[s], .done hround, Nat.le_add_left _ _⟩
    · have hleft := left_lt_of_round hround
      obtain ⟨rounds, hrounds, hlength⟩ := ih (hleft.trans_le (Nat.le_of_lt_succ hfuel))
      refine ⟨s :: rounds, .next hround hrounds, ?_⟩
      rw [List.length_cons]
      omega

theorem atPointer_eq_true {s : NameCursor} :
    s.atPointer message = true ↔ ∃ length, message[s.cursor]? = some length ∧
      length &&& 0xc0 = 0xc0 := by
  simp [NameCursor.atPointer, Option.any_eq_true]

/-- The rounds at a pointer are counted, but for the last one. -/
theorem Rounds.countP_le {s : NameCursor} {rounds : List NameCursor}
    {result : Except ParseError (DnsName × ℕ)} (h : Rounds message s rounds result)
    (hjumps : s.jumps ≤ maxJumps) :
    rounds.countP (·.atPointer message) + s.jumps ≤ maxJumps + 1 := by
  have hlast (s : NameCursor) (hjumps : s.jumps ≤ maxJumps) :
      [s].countP (·.atPointer message) + s.jumps ≤ maxJumps + 1 := by
    have hone : [s].countP (·.atPointer message) ≤ 1 := List.countP_le_length
    omega
  induction h with
  | fail => exact hlast _ hjumps
  | done => exact hlast _ hjumps
  | @next s s' rounds result hround _ ih =>
    obtain ⟨length, hget, -, ⟨-, t, ht, -, hjump, hle⟩ | ⟨hnot, t, label, ht, -, hsame⟩ |
      ⟨-, read, hread⟩⟩ := round_cases hround
    · obtain rfl := Sum.inr.inj ht
      have hone : [s].countP (·.atPointer message) ≤ 1 := List.countP_le_length
      have hrest := ih hle
      rw [← List.singleton_append, List.countP_append]
      omega
    · obtain rfl := Sum.inr.inj ht
      have hrest := ih (hsame.trans_le hjumps)
      rw [List.countP_cons_of_neg, ← hsame]
      · exact hrest
      · rw [atPointer_eq_true]
        rintro ⟨length', hget', hpointer⟩
        rw [hget] at hget'
        exact hnot (Option.some.inj hget' ▸ hpointer)
    · cases hread

/-! ## Where a name ends -/

theorem NameAt.ownOctets {follows : ℕ → ℕ → Prop} {jumps offset stop : ℕ} {labels : List DnsLabel}
    (h : NameAt follows message jumps offset labels stop) : OwnOctets message offset stop := by
  induction h with
  | root hget => exact .root hget
  | label hget hlabel hne _ _ _ ih => exact .label hget hne hlabel ih
  | pointer hget hpointer hnext => exact .pointer hget hpointer (List.getElem?_eq_some_iff.1 hnext).1

theorem OwnOctets.advances {offset stop : ℕ} (h : OwnOctets message offset stop) :
    offset < stop ∧ stop ≤ message.length := by
  induction h with
  | root hget => exact ⟨Nat.lt_succ_self _, (List.getElem?_eq_some_iff.1 hget).1⟩
  | pointer _ _ hnext => exact ⟨by omega, hnext⟩
  | label _ _ _ _ ih => exact ⟨by omega, ih.2⟩

theorem parseWire_advances {offset stop : ℕ} {name : DnsName}
    (h : parseWire message offset = .ok (name, stop)) : offset < stop ∧ stop ≤ message.length := by
  obtain ⟨jumps, -, hat⟩ := parseWire_iff.1 h
  exact hat.ownOctets.advances

end Rounds

/-- Reading a name ends after rounds that each take octets of the message, or fail; at most seventeen
    of them start at a pointer. -/
theorem parseWire_bounded (message : List UInt8) (offset : ℕ) :
    (∃ rounds, Rounds message ⟨root, offset, none, 0⟩ rounds (parseWire message offset) ∧
      rounds.length ≤ 270 ∧ rounds.countP (·.atPointer message) ≤ 17 ∧
      ∀ s ∈ rounds, ∀ out, s.round message = .ok out → ∃ length, message[s.cursor]? = some length ∧
        s.cursor + NameCursor.width length ≤ message.length) ∧
    ∀ name next, parseWire message offset = .ok (name, next) →
      offset < next ∧ next ≤ message.length ∧ OwnOctets message offset next ∧
      (∀ label ∈ name.labels, 1 ≤ label.bytes.length ∧ label.bytes.length ≤ 63 ∧
        isValidDnsLabel label.bytes) ∧
      (name.labels.map fun label => label.bytes.length + 1).sum ≤ 253 := by
  constructor
  · have hleft : (⟨root, offset, none, 0⟩ : NameCursor).left < 270 :=
      (by decide : maxDnsNameLen - 0 + (maxJumps - 0) < 270)
    obtain ⟨rounds, hrounds, hlength⟩ := @exists_rounds message 270 ⟨root, offset, none, 0⟩ hleft
    refine ⟨rounds, hrounds, hlength, hrounds.countP_le (Nat.zero_le _), ?_⟩
    intro s _ out hround
    obtain ⟨length, hget, hinside, -⟩ := round_cases hround
    exact ⟨length, hget, hinside⟩
  · intro name next h
    obtain ⟨jumps, -, hat⟩ := parseWire_iff.1 h
    obtain ⟨hlt, hle⟩ := parseWire_advances h
    exact ⟨hlt, hle, hat.ownOctets,
      fun label _ => ⟨label.length_pos, label.length_le, label.valid⟩, name.length_le⟩

/-- The pointer to a name in front of it has two octets. -/
theorem ownOctets_of_pointer : OwnOctets [1, 0x61, 0, 0xc0, 0] 3 5 := by
  have h : parseWire [1, 0x61, 0, 0xc0, 0] 3 =
      .ok (⟨[⟨[0x61], by decide, by decide, by decide, by decide⟩], by decide⟩, 5) := by
    decide +kernel
  exact ((parseWire_bounded _ 3).2 _ 5 h).2.2.1

/-! ## Records -/

/-- The cursor moves on with every item, and stays in the message. -/
theorem parseItems_advances {α : Type} {parse : List UInt8 → ℕ → Except ParseError (α × ℕ)}
    {message : List UInt8}
    (h : ∀ start item stop, parse message start = .ok (item, stop) →
      start < stop ∧ stop ≤ message.length)
    {count offset stop : ℕ} {items : List α}
    (hitems : parseItems parse message count offset = .ok (items, stop)) :
    offset + count ≤ stop ∧ (0 < count → stop ≤ message.length) := by
  induction count generalizing offset items with
  | zero =>
    cases hitems
    exact ⟨le_rfl, fun hpos => absurd hpos (lt_irrefl 0)⟩
  | succ count ih =>
    obtain ⟨⟨item, next⟩, hitem, hitems⟩ := Except.bind_eq_ok.1 hitems
    obtain ⟨⟨items', stop'⟩, hrest, hitems⟩ := Except.bind_eq_ok.1 hitems
    cases hitems
    obtain ⟨hlt, hle⟩ := h _ _ _ hitem
    obtain ⟨hmore, hinside⟩ := ih hrest
    refine ⟨by omega, fun _ => ?_⟩
    rcases Nat.eq_zero_or_pos count with rfl | hpos
    · cases hrest
      exact hle
    · exact hinside hpos

end DnsName

/-- The records of a section stand behind each other. -/
theorem parseRecords_advances {message : List UInt8} {cursor stop : ℕ} {count : UInt16}
    {records : List ResourceRecord} (h : parseRecords message cursor count = .ok (records, stop)) :
    cursor + count.toNat ≤ stop ∧ (0 < count.toNat → stop ≤ message.length) := by
  refine DnsName.parseItems_advances ?_ h
  intro start record stop hrecord
  obtain ⟨at_, t₁, t₂, c₁, c₂, l₁, l₂, l₃, l₄, r₁, r₂, rest, ⟨_, _, hname⟩, hdrop, -, -, -, -, rfl⟩ :=
    recordAt_iff.1 hrecord
  have hlt := hname.ownOctets.advances.1
  have hlength := congrArg List.length hdrop
  simp only [List.length_drop, List.length_cons, List.length_append] at hlength
  omega

end Hns
