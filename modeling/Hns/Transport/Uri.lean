import Hns.Transport.Grammar

/-!
# Hosts and targets

The parts of a URI that a request of HTTP/1.1 has: the target, as a path and a
query, and the host, a name or an address in brackets, with a port maybe. A value
names a host and a port in one way (`IsAuthority.unique`).
-/

namespace Hns

namespace Http11

/-! ## Texts with percent-encodings -/

def isUnreserved (byte : UInt8) : Bool :=
  isAsciiAlphanumeric byte ∨ byte ∈ [0x2d, 0x2e, 0x5f, 0x7e]

def isSubDelim (byte : UInt8) : Bool :=
  byte ∈ [0x21, 0x24, 0x26, 0x27, 0x28, 0x29, 0x2a, 0x2b, 0x2c, 0x3b, 0x3d]

/-- An octet of a path: one of a segment, or the slash between two. -/
def isPathByte (byte : UInt8) : Bool :=
  isUnreserved byte ∨ isSubDelim byte ∨ byte ∈ [0x3a, 0x40, 0x2f]

def isQueryByte (byte : UInt8) : Bool := isPathByte byte ∨ byte = 0x3f

def isNameByte (byte : UInt8) : Bool := isUnreserved byte ∨ isSubDelim byte

/-- Octets of a kind, and others that are percent-encoded. -/
inductive IsPctText (p : UInt8 → Bool) : List UInt8 → Prop
  | nil : IsPctText p []
  | octet {octet : UInt8} {rest : List UInt8} (hoctet : p octet) (hrest : IsPctText p rest) :
      IsPctText p (octet :: rest)
  | pct {high low : UInt8} {rest : List UInt8} (hdigits : IsDigits 16 [high, low])
      (hrest : IsPctText p rest) : IsPctText p (0x25 :: high :: low :: rest)

theorem IsPctText.of_forall {p : UInt8 → Bool} {text : List UInt8} (h : ∀ octet ∈ text, p octet) :
    IsPctText p text := by
  induction text with
  | nil => exact .nil
  | cons octet text ih =>
    rw [List.forall_mem_cons] at h
    exact .octet h.1 (ih h.2)

theorem IsPctText.mem {p : UInt8 → Bool} {text : List UInt8} (h : IsPctText p text) :
    ∀ octet ∈ text, p octet ∨ octet = 0x25 ∨ (toDigit 16 octet).isSome := by
  induction h with
  | nil => exact fun _ hmem => absurd hmem List.not_mem_nil
  | octet hoctet hrest ih => exact List.forall_mem_cons.2 ⟨.inl hoctet, ih⟩
  | pct hdigits hrest ih =>
    have hhigh := hdigits.2 _ List.mem_cons_self
    have hlow := hdigits.2 _ (List.mem_cons_of_mem _ List.mem_cons_self)
    exact List.forall_mem_cons.2 ⟨.inr (.inl rfl),
      List.forall_mem_cons.2 ⟨.inr (.inr hhigh), List.forall_mem_cons.2 ⟨.inr (.inr hlow), ih⟩⟩⟩

/-- `origin-form`: a path from the root, and a query maybe. -/
def IsOriginForm (target : List UInt8) : Prop :=
  ∃ path query, IsPctText isPathByte path ∧
    (query = [] ∨ ∃ text, IsPctText isQueryByte text ∧ query = 0x3f :: text) ∧
    target = 0x2f :: (path ++ query)

theorem IsOriginForm.not_space {target : List UInt8} (h : IsOriginForm target) :
    ∀ octet ∈ target, octet ≠ 0x20 ∧ octet ≠ cr ∧ octet ≠ lf := by
  have hbyte (octet : UInt8) (h : isQueryByte octet ∨ octet = 0x25 ∨ (toDigit 16 octet).isSome) :
      octet ≠ 0x20 ∧ octet ≠ cr ∧ octet ≠ lf := by
    refine ⟨?_, ?_, ?_⟩
    all_goals
      rintro rfl
      exact absurd h (by decide)
  have hpath (octet : UInt8) (h : isPathByte octet) : isQueryByte octet :=
    decide_eq_true (.inl h)
  obtain ⟨path, query, hpathText, hquery, rfl⟩ := h
  rw [List.forall_mem_cons, List.forall_mem_append]
  refine ⟨by decide, fun octet hoctet => ?_, fun octet hoctet => ?_⟩
  · exact hbyte octet ((hpathText.mem octet hoctet).imp_left (hpath octet))
  · rcases hquery with rfl | ⟨text, htext, rfl⟩
    · cases hoctet
    · rcases List.mem_cons.1 hoctet with rfl | hoctet
      · decide
      · exact hbyte octet (htext.mem octet hoctet)

/-! ## Addresses -/

/-- `IPv4address`. -/
def IsIpv4 (text : List UInt8) : Prop :=
  ∃ a b c d, (a < 256 ∧ b < 256 ∧ c < 256 ∧ d < 256) ∧
    text = [0x2e].intercalate ([a, b, c, d].map fun n => utf8 (Chars.decimal n))

/-- Up to four digits in hexadecimal. -/
def IsGroup (text : List UInt8) : Prop := IsDigits 16 text ∧ text.length ≤ 4

/-- Groups, of which the last two may be an IPv4 address, and how many there are. -/
inductive IsGroups : List (List UInt8) → ℕ → Prop
  | groups {groups : List (List UInt8)} (hgroups : ∀ group ∈ groups, IsGroup group) :
      IsGroups groups groups.length
  | ipv4 {groups : List (List UInt8)} {text : List UInt8}
      (hgroups : ∀ group ∈ groups, IsGroup group) (htext : IsIpv4 text) :
      IsGroups (groups ++ [text]) (groups.length + 2)

/-- `IPv6address`: eight groups, or less with a gap. -/
inductive IsIpv6 : List UInt8 → Prop
  | groups {groups : List (List UInt8)} (hgroups : IsGroups groups 8) :
      IsIpv6 ([0x3a].intercalate groups)
  | gap {before after : List (List UInt8)} {count : ℕ} (hbefore : ∀ group ∈ before, IsGroup group)
      (hafter : IsGroups after count) (hcount : before.length + count < 8) :
      IsIpv6 ([0x3a].intercalate before ++ [0x3a, 0x3a] ++ [0x3a].intercalate after)

/-- `IPvFuture`. -/
def IsIpvFuture (text : List UInt8) : Prop :=
  ∃ letter version address, (letter = 0x76 ∨ letter = 0x56) ∧ IsDigits 16 version ∧
    address ≠ [] ∧ (∀ octet ∈ address, isNameByte octet ∨ octet = 0x3a) ∧
    text = letter :: (version ++ 0x2e :: address)

/-- `uri-host`. -/
inductive IsUriHost : List UInt8 → Prop
  | name {text : List UInt8} (h : IsPctText isNameByte text) : IsUriHost text
  | ipv6 {text : List UInt8} (h : IsIpv6 text) : IsUriHost (0x5b :: text ++ [0x5d])
  | future {text : List UInt8} (h : IsIpvFuture text) : IsUriHost (0x5b :: text ++ [0x5d])

/-- A host, and a port behind it maybe. -/
inductive IsAuthority (host : List UInt8) : List UInt8 → Option ℕ → Prop
  | host (hhost : IsUriHost host) : IsAuthority host host none
  | empty (hhost : IsUriHost host) : IsAuthority host (host ++ [0x3a]) none
  | port {digits : List UInt8} (hhost : IsUriHost host) (hdigits : IsDigits 10 digits) :
      IsAuthority host (host ++ 0x3a :: digits) (some (digitsValue 10 digits))

/-! ## No bracket is inside a name or an address -/

theorem mem_intercalate_singleton {separator octet : UInt8} {parts : List (List UInt8)}
    (h : octet ∈ [separator].intercalate parts) : octet = separator ∨ ∃ part ∈ parts, octet ∈ part := by
  induction parts with
  | nil => cases h
  | cons part parts ih =>
    cases parts with
    | nil => exact .inr ⟨part, List.mem_cons_self, by simpa using h⟩
    | cons next parts =>
      rw [List.intercalate_cons_cons, List.mem_append, List.mem_append, List.mem_singleton] at h
      rcases h with (h | h) | h
      · exact .inr ⟨part, List.mem_cons_self, h⟩
      · exact .inl h
      · obtain h | ⟨part, hpart, h⟩ := ih h
        · exact .inl h
        · exact .inr ⟨part, List.mem_cons_of_mem _ hpart, h⟩

/-- An octet of an address of version 6. -/
def IsAddressByte (octet : UInt8) : Prop :=
  octet = 0x3a ∨ octet = 0x2e ∨ (toDigit 16 octet).isSome

theorem IsIpv4.mem {text : List UInt8} (h : IsIpv4 text) : ∀ octet ∈ text, IsAddressByte octet := by
  obtain ⟨a, b, c, d, -, rfl⟩ := h
  intro octet hoctet
  obtain h | ⟨part, hpart, h⟩ := mem_intercalate_singleton hoctet
  · exact .inr (.inl h)
  · obtain ⟨n, -, rfl⟩ := List.mem_map.1 hpart
    exact .inr (.inr (toDigit_ten octet ((digits_decimal n).1.2 octet h)))

theorem IsGroups.mem {groups : List (List UInt8)} {count : ℕ} (h : IsGroups groups count) :
    ∀ octet ∈ [0x3a].intercalate groups, IsAddressByte octet := by
  intro octet hoctet
  obtain hsep | ⟨part, hpart, hmem⟩ := mem_intercalate_singleton hoctet
  · exact .inl hsep
  · cases h with
    | groups hgroups => exact .inr (.inr ((hgroups part hpart).1.2 octet hmem))
    | ipv4 hgroups htext =>
      rcases List.mem_append.1 hpart with hpart | hpart
      · exact .inr (.inr ((hgroups part hpart).1.2 octet hmem))
      · exact htext.mem octet (List.mem_singleton.1 hpart ▸ hmem)

theorem IsIpv6.mem {text : List UInt8} (h : IsIpv6 text) : ∀ octet ∈ text, IsAddressByte octet := by
  cases h with
  | groups hgroups => exact hgroups.mem
  | gap hbefore hafter hcount =>
    rw [List.forall_mem_append, List.forall_mem_append]
    exact ⟨⟨(IsGroups.groups hbefore).mem, by simp [IsAddressByte]⟩, hafter.mem⟩

theorem IsIpvFuture.mem {text : List UInt8} (h : IsIpvFuture text) :
    ∀ octet ∈ text, isNameByte octet ∨ IsAddressByte octet := by
  obtain ⟨letter, version, address, hletter, hversion, -, haddress, rfl⟩ := h
  rw [List.forall_mem_cons, List.forall_mem_append, List.forall_mem_cons]
  refine ⟨.inl ?_, fun octet hoctet => .inr (.inr (.inr (hversion.2 octet hoctet))),
    .inr (.inr (.inl rfl)), fun octet hoctet => (haddress octet hoctet).imp_right .inl⟩
  rcases hletter with rfl | rfl <;> decide

theorem not_bracket : ∀ octet : UInt8, isNameByte octet ∨ octet = 0x25 ∨ octet = 0x3a ∨
    octet = 0x2e ∨ (toDigit 16 octet).isSome → octet ≠ 0x5b ∧ octet ≠ 0x5d := by
  refine fun octet h => ⟨?_, ?_⟩
  all_goals
    rintro rfl
    exact absurd h (by decide)

/-- A host is a name without brackets and colons, or an address in brackets with none inside. -/
theorem IsUriHost.cases_brackets {host : List UInt8} (h : IsUriHost host) :
    (∀ octet ∈ host, octet ≠ 0x5b ∧ octet ≠ 0x3a) ∨
      ∃ text, host = 0x5b :: text ++ [0x5d] ∧ ∀ octet ∈ text, octet ≠ 0x5b ∧ octet ≠ 0x5d := by
  cases h with
  | name h =>
    have hbyte (octet : UInt8) (h : isNameByte octet ∨ octet = 0x25 ∨ (toDigit 16 octet).isSome) :
        octet ≠ 0x5b ∧ octet ≠ 0x3a := by
      refine ⟨?_, ?_⟩
      all_goals
        rintro rfl
        exact absurd h (by decide)
    exact .inl fun octet hoctet => hbyte octet (h.mem octet hoctet)
  | @ipv6 text h =>
    refine .inr ⟨text, rfl, fun octet hoctet => not_bracket octet ?_⟩
    rcases h.mem octet hoctet with h | h | h <;> simp [h]
  | @future text h =>
    refine .inr ⟨text, rfl, fun octet hoctet => not_bracket octet ?_⟩
    rcases h.mem octet hoctet with h | h | h | h <;> simp [h]

/-- What may be behind a host: nothing, or a colon and more. -/
def IsBehindHost (rest : List UInt8) : Prop := rest = [] ∨ ∃ tail, rest = 0x3a :: tail

theorem takeWhile_host {host rest : List UInt8} (hhost : ∀ octet ∈ host, octet ≠ 0x5b ∧ octet ≠ 0x3a)
    (hrest : IsBehindHost rest) : (host ++ rest).takeWhile (· ≠ 0x3a) = host := by
  rw [List.takeWhile_append_of_pos fun octet hoctet => decide_eq_true (hhost octet hoctet).2]
  rcases hrest with rfl | ⟨tail, rfl⟩ <;> simp

theorem not_bracket_head {host rest tail : List UInt8}
    (hhost : ∀ octet ∈ host, octet ≠ 0x5b ∧ octet ≠ 0x3a) (hrest : IsBehindHost rest) :
    host ++ rest ≠ 0x5b :: tail := by
  intro heq
  cases host with
  | nil =>
    rcases hrest with rfl | ⟨behind, rfl⟩
    · cases heq
    · exact absurd (List.cons.inj heq).1 (by decide)
  | cons octet host => exact (hhost octet List.mem_cons_self).1 (List.cons.inj heq).1

/-- A host ends in one place. -/
theorem IsUriHost.unique {host host' rest rest' : List UInt8} (h : IsUriHost host)
    (h' : IsUriHost host') (hrest : IsBehindHost rest) (hrest' : IsBehindHost rest')
    (heq : host ++ rest = host' ++ rest') : host = host' ∧ rest = rest' := by
  suffices hsame : host = host' by
    subst hsame
    exact ⟨rfl, List.append_cancel_left heq⟩
  rcases h.cases_brackets with hname | ⟨text, rfl, htext⟩ <;>
    rcases h'.cases_brackets with hname' | ⟨text', rfl, htext'⟩
  · rw [← takeWhile_host hname hrest, heq, takeWhile_host hname' hrest']
  · exact absurd heq (not_bracket_head hname hrest)
  · exact absurd heq.symm (not_bracket_head hname' hrest')
  · -- The address ends at the first closing bracket.
    have hsplit {text rest : List UInt8} (htext : ∀ octet ∈ text, octet ≠ 0x5b ∧ octet ≠ 0x5d) :
        splitOnce 0x5d (text ++ [0x5d] ++ rest) = some (text, rest) :=
      splitOnce_eq_some.2 ⟨fun hmem => (htext _ hmem).2 rfl, List.append_assoc _ _ _⟩
    have hsome := (hsplit htext).symm.trans ((congrArg _ (List.cons.inj heq).2).trans (hsplit htext'))
    rw [(Prod.mk.inj (Option.some.inj hsome)).1]

theorem IsAuthority.exists_rest {host value : List UInt8} {port : Option ℕ}
    (h : IsAuthority host value port) : IsUriHost host ∧ ∃ rest, value = host ++ rest ∧
      IsBehindHost rest ∧
      port = if rest.drop 1 = [] then none else some (digitsValue 10 (rest.drop 1)) := by
  cases h with
  | host hhost => exact ⟨hhost, [], (List.append_nil _).symm, .inl rfl, rfl⟩
  | empty hhost => exact ⟨hhost, [0x3a], rfl, .inr ⟨[], rfl⟩, rfl⟩
  | port hhost hdigits => exact ⟨hhost, _, rfl, .inr ⟨_, rfl⟩, (if_neg hdigits.1).symm⟩

/-- A value names a host and a port in one way. -/
theorem IsAuthority.unique {host host' value : List UInt8} {port port' : Option ℕ}
    (h : IsAuthority host value port) (h' : IsAuthority host' value port') :
    host = host' ∧ port = port' := by
  obtain ⟨hhost, rest, rfl, hrest, rfl⟩ := h.exists_rest
  obtain ⟨hhost', rest', heq, hrest', rfl⟩ := h'.exists_rest
  obtain ⟨rfl, rfl⟩ := hhost.unique hhost' hrest hrest' heq
  exact ⟨rfl, rfl⟩

end Http11

end Hns
