import Hns.Lib.Chars

/-!
# JSON texts

Values written without white space (`Json.render`). What is looked for in such a
text by the name of a field, as a regular expression does, is what the value has
(`findField_render`): where strings are escaped and names are plain, nothing in a
string is taken for a field.
-/

/-- A JSON value, its numbers natural. -/
inductive Json
  | null
  | bool (value : Bool)
  | number (value : ℕ)
  | string (value : List Char)
  | array (items : List Json)
  | object (fields : List (List Char × Json))

namespace Json

/-- A value, or `null`. -/
def orNull {α : Type*} (f : α → Json) (value : Option α) : Json := value.elim null f

/-! ## Writing -/

/-- The control characters of Unicode. -/
def isControl (c : Char) : Bool := c.toNat < 0x20 ∨ (0x7f ≤ c.toNat ∧ c.toNat ≤ 0x9f)

def escapeChar (c : Char) : List Char :=
  if c = '"' then ['\\', '"']
  else if c = '\\' then ['\\', '\\']
  else if c = '\n' then ['\\', 'n']
  else if c = '\r' then ['\\', 'r']
  else if c = '\t' then ['\\', 't']
  else if isControl c then '\\' :: 'u' :: Chars.hex 4 c.toNat
  else [c]

def escape (text : List Char) : List Char := text.flatMap escapeChar

def quote (text : List Char) : List Char := '"' :: escape text ++ ['"']

mutual

def render : Json → List Char
  | null => Chars.of "null"
  | bool value => if value then Chars.of "true" else Chars.of "false"
  | number value => Chars.decimal value
  | string value => quote value
  | array items => '[' :: [','].intercalate (renderItems items) ++ [']']
  | object fields => '{' :: [','].intercalate (renderFields fields) ++ ['}']

def renderItems : List Json → List (List Char)
  | [] => []
  | item :: items => render item :: renderItems items

def renderFields : List (List Char × Json) → List (List Char)
  | [] => []
  | (name, value) :: fields => (quote name ++ ':' :: render value) :: renderFields fields

end

mutual

/-- The fields of all objects in a value, in the order of the text. -/
def fields : Json → List (List Char × Json)
  | array items => itemsFields items
  | object members => membersFields members
  | _ => []

def itemsFields : List Json → List (List Char × Json)
  | [] => []
  | item :: items => fields item ++ itemsFields items

def membersFields : List (List Char × Json) → List (List Char × Json)
  | [] => []
  | (name, value) :: members => (name, value) :: (fields value ++ membersFields members)

end

@[simp] theorem fields_null : null.fields = [] := rfl

@[simp] theorem fields_bool (value : Bool) : (bool value).fields = [] := rfl

@[simp] theorem fields_number (value : ℕ) : (number value).fields = [] := rfl

@[simp] theorem fields_string (value : List Char) : (string value).fields = [] := rfl

theorem renderItems_eq (items : List Json) : renderItems items = items.map render := by
  induction items with
  | nil => rfl
  | cons item items ih => rw [renderItems, ih, List.map_cons]

theorem renderFields_eq (members : List (List Char × Json)) :
    renderFields members = members.map fun member => quote member.1 ++ ':' :: render member.2 := by
  induction members with
  | nil => rfl
  | cons member members ih => rw [renderFields, ih, List.map_cons]

/-- What holds of a value when it holds of its parts. -/
theorem parts_induction {p : Json → Prop} (null : p .null) (bool : ∀ value, p (.bool value))
    (number : ∀ value, p (.number value)) (string : ∀ value, p (.string value))
    (array : ∀ items, (∀ item ∈ items, p item) → p (.array items))
    (object : ∀ members, (∀ member ∈ members, p member.2) → p (.object members)) (j : Json) :
    p j :=
  Json.rec (motive_1 := p) (motive_2 := fun items => ∀ item ∈ items, p item)
    (motive_3 := fun members => ∀ member ∈ members, p member.2) (motive_4 := fun member => p member.2)
    null bool number string array object (fun _ h => absurd h List.not_mem_nil)
    (fun _ _ hitem hitems => List.forall_mem_cons.2 ⟨hitem, hitems⟩)
    (fun _ h => absurd h List.not_mem_nil)
    (fun _ _ hmember hmembers => List.forall_mem_cons.2 ⟨hmember, hmembers⟩)
    (fun _ _ hvalue => hvalue) j

/-! ## Characters -/

theorem not_isControl_of_all {text : List Char} (h : text.all fun c => !isControl c) :
    ∀ c ∈ text, ¬isControl c := fun c hc => by simpa using List.all_eq_true.1 h c hc

theorem not_isControl_of_mem_escapeChar {c d : Char} (h : d ∈ escapeChar c) : ¬isControl d := by
  have hhex (digit : Char) (hdigit : digit ∈ Chars.hex 4 c.toNat) : ¬isControl digit :=
    Chars.forall_mem_hex (p := fun digit => ¬isControl digit) (by decide) 4 c.toNat digit hdigit
  rw [escapeChar] at h
  split_ifs at h with hquote hback hn hr ht hcontrol
  · exact not_isControl_of_all (by decide) d h
  · exact not_isControl_of_all (by decide) d h
  · exact not_isControl_of_all (by decide) d h
  · exact not_isControl_of_all (by decide) d h
  · exact not_isControl_of_all (by decide) d h
  · rw [List.mem_cons, List.mem_cons] at h
    rcases h with rfl | rfl | h
    · decide
    · decide
    · exact hhex d h
  · rw [List.mem_singleton] at h
    rwa [h]

theorem not_isControl_of_mem_quote {text : List Char} {c : Char} (h : c ∈ quote text) :
    ¬isControl c := by
  rw [quote, List.cons_append, List.mem_cons, List.mem_append, List.mem_singleton, escape,
    List.mem_flatMap] at h
  rcases h with rfl | ⟨d, -, h⟩ | rfl
  · decide
  · exact not_isControl_of_mem_escapeChar h
  · decide

/-- No control character is written. -/
theorem not_isControl_of_mem_render (j : Json) : ∀ c ∈ j.render, ¬isControl c := by
  induction j using parts_induction with
  | null =>
    refine not_isControl_of_all ?_
    unfold render Chars.of
    decide
  | bool value =>
    refine not_isControl_of_all ?_
    cases value <;> (unfold render Chars.of; decide)
  | number value =>
    intro c hc
    have hdigit := Chars.isDigit_of_mem_decimal hc
    simp only [Char.isDigit, Bool.and_eq_true, decide_eq_true_eq] at hdigit
    simp only [isControl, decide_eq_true_eq]
    have hle : 48 ≤ c.toNat := hdigit.1
    have hge : c.toNat ≤ 57 := hdigit.2
    omega
  | string value => exact fun c hc => not_isControl_of_mem_quote hc
  | array items ih =>
    intro c hc
    rw [render, List.cons_append, List.mem_cons, List.mem_append, List.mem_singleton,
      renderItems_eq] at hc
    rcases hc with rfl | hc | rfl
    · decide
    · rcases Chars.mem_intercalate hc with rfl | ⟨part, hpart, hc⟩
      · decide
      · obtain ⟨item, hitem, rfl⟩ := List.mem_map.1 hpart
        exact ih item hitem c hc
    · decide
  | object members ih =>
    intro c hc
    rw [render, List.cons_append, List.mem_cons, List.mem_append, List.mem_singleton,
      renderFields_eq] at hc
    rcases hc with rfl | hc | rfl
    · decide
    · rcases Chars.mem_intercalate hc with rfl | ⟨part, hpart, hc⟩
      · decide
      · obtain ⟨member, hmember, rfl⟩ := List.mem_map.1 hpart
        rcases List.mem_append.1 hc with hc | hc
        · exact not_isControl_of_mem_quote hc
        · rcases List.mem_cons.1 hc with rfl | hc
          · decide
          · exact ih member hmember c hc
    · decide

/-! ## Fields in the text -/

section Finding

variable {α : Type*}

/-- The text of a value, where a text begins with the field of the name. -/
def fieldAt (space : Char → Bool) (name text : List Char) : Option (List Char) :=
  if ('"' :: name ++ ['"']).isPrefixOf text then
    match (text.drop (name.length + 2)).dropWhile space with
    | [] => none
    | c :: rest => if c = ':' then some (rest.dropWhile space) else none
  else none

/-- The first field of the name in a text whose value can be read. -/
def findField (space : Char → Bool) (name : List Char) (read : List Char → Option α) :
    List Char → Option α
  | [] => none
  | c :: text => ((fieldAt space name (c :: text)).bind read).or (findField space name read text)

/-- What can be skipped lies before all characters that are written outside of strings. -/
def Skips (space : Char → Bool) : Prop := ∀ c, space c → c.toNat ≤ 0x20

/-- The text behind a value. -/
def Ends (rest : List Char) : Prop := ∀ c ∈ rest.head?, c = ',' ∨ c = ']' ∨ c = '}'

/-- The characters of names. -/
def isWord (c : Char) : Bool := Char.isAlphanum c || c = '_'

/-- A name that is not escaped. -/
def Plain (name : List Char) : Prop := name ≠ [] ∧ ∀ c ∈ name, isWord c

instance (name : List Char) : Decidable (Plain name) :=
  decidable_of_iff (name ≠ [] ∧ name.all isWord) (by rw [Plain, List.all_eq_true])

variable {space : Char → Bool} {name : List Char} {read : List Char → Option α}

theorem findField_cons {c : Char} (hc : c ≠ '"') (text : List Char) :
    findField space name read (c :: text) = findField space name read text := by
  rw [findField, fieldAt, if_neg]
  · rfl
  · rw [List.isPrefixOf_iff_prefix, List.cons_append, List.cons_prefix_cons]
    exact fun h => hc h.1.symm

theorem findField_append {text : List Char} (h : '"' ∉ text) (rest : List Char) :
    findField space name read (text ++ rest) = findField space name read rest := by
  induction text with
  | nil => rfl
  | cons c text ih =>
    rw [List.mem_cons, not_or] at h
    rw [List.cons_append, findField_cons (Ne.symm h.1), ih h.2]

/-! ### Strings -/

theorem plain_of {s : String} (h : Plain s.toList) : Plain (Chars.of s) := by
  unfold Chars.of
  exact h

theorem quote_not_mem_of_plain (h : Plain name) : '"' ∉ name := fun hmem =>
  absurd (h.2 _ hmem) (by decide)

theorem escapeChar_eq_of_isWord {c : Char} (h : isWord c) : escapeChar c = [c] := by
  have hmarks (d : Char) (hd : isWord d = false) : c ≠ d := by
    rintro rfl
    exact absurd h (by simp [hd])
  have hcontrol : ¬isControl c := by
    rw [isWord, Bool.or_eq_true, decide_eq_true_eq] at h
    simp only [isControl, decide_eq_true_eq]
    rcases h with h | rfl
    · rw [show c.isAlphanum = (c.isUpper || c.isLower || c.isDigit) from rfl, Bool.or_eq_true,
        Bool.or_eq_true] at h
      rcases h with (hupper | hlower) | hdigit
      · have hrange : 65 ≤ c.toNat ∧ c.toNat ≤ 90 := of_decide_eq_true hupper
        omega
      · have hrange : 97 ≤ c.toNat ∧ c.toNat ≤ 122 := by
          have hboth := Bool.and_eq_true_iff.1 hlower
          exact ⟨of_decide_eq_true hboth.1, of_decide_eq_true hboth.2⟩
        omega
      · have hrange : 48 ≤ c.toNat ∧ c.toNat ≤ 57 := by
          have hboth := Bool.and_eq_true_iff.1 hdigit
          exact ⟨of_decide_eq_true hboth.1, of_decide_eq_true hboth.2⟩
        omega
    · decide
  rw [escapeChar, if_neg (hmarks _ (by decide)), if_neg (hmarks _ (by decide)),
    if_neg (hmarks _ (by decide)), if_neg (hmarks _ (by decide)), if_neg (hmarks _ (by decide)),
    if_neg hcontrol]

/-- A plain name is written as it is. -/
theorem escape_of_plain (h : Plain name) : escape name = name := by
  have key (text : List Char) (htext : ∀ c ∈ text, isWord c) : escape text = text := by
    induction text with
    | nil => rfl
    | cons c text ih =>
      obtain ⟨hc, htext⟩ := List.forall_mem_cons.1 htext
      have hrest : text.flatMap escapeChar = text := ih htext
      rw [escape, List.flatMap_cons, escapeChar_eq_of_isWord hc, hrest, List.singleton_append]
  exact key name h.2

/-- An escaped character begins with a backslash, or is the character, no quote. -/
theorem escapeChar_cases (c : Char) :
    (∃ d, escapeChar c = ['\\', d]) ∨
      (∃ digits, '"' ∉ digits ∧ escapeChar c = '\\' :: digits) ∨
      c ≠ '"' ∧ c ≠ '\\' ∧ escapeChar c = [c] := by
  have hhex : '"' ∉ Chars.hex 4 c.toNat := fun h =>
    Chars.forall_mem_hex (p := (· ≠ '"')) (by decide) 4 c.toNat _ h rfl
  rw [escapeChar]
  split_ifs with hquote hback hn hr ht hcontrol
  · exact .inl ⟨_, rfl⟩
  · exact .inl ⟨_, rfl⟩
  · exact .inl ⟨_, rfl⟩
  · exact .inl ⟨_, rfl⟩
  · exact .inl ⟨_, rfl⟩
  · refine .inr (.inl ⟨_, ?_, rfl⟩)
    rw [List.mem_cons, not_or]
    exact ⟨by decide, hhex⟩
  · exact .inr (.inr ⟨hquote, hback, rfl⟩)

/-- What is quoted with a plain content is the content. -/
theorem escape_eq_of_front {plain text rest : List Char} (hplain : ∀ c ∈ plain, isWord c)
    (h : plain ++ ['"'] <+: escape text ++ '"' :: rest) : escape text = plain := by
  induction text generalizing plain with
  | nil =>
    cases plain with
    | nil => rfl
    | cons c plain =>
      obtain ⟨rfl, -⟩ := List.cons_prefix_cons.1 h
      exact absurd (hplain _ List.mem_cons_self) (by decide)
  | cons d text ih =>
    have hescape : escape (d :: text) = escapeChar d ++ escape text := List.flatMap_cons
    rw [hescape, List.append_assoc] at h
    rw [hescape]
    have hback (e : List Char) (hchar : escapeChar d = '\\' :: e) : False := by
      rw [hchar] at h
      cases plain with
      | nil => exact absurd (List.cons_prefix_cons.1 h).1 (by decide)
      | cons c plain =>
        obtain ⟨rfl, -⟩ := List.cons_prefix_cons.1 h
        exact absurd (hplain _ List.mem_cons_self) (by decide)
    rcases escapeChar_cases d with ⟨e, hchar⟩ | ⟨digits, -, hchar⟩ | ⟨hquote, -, hchar⟩
    · exact (hback _ hchar).elim
    · exact (hback _ hchar).elim
    · rw [hchar, List.singleton_append] at h ⊢
      cases plain with
      | nil => exact absurd (List.cons_prefix_cons.1 h).1.symm hquote
      | cons c plain =>
        obtain ⟨rfl, hrest⟩ := List.cons_prefix_cons.1 h
        rw [ih (fun c hc => hplain c (List.mem_cons_of_mem _ hc)) hrest]

/-- No field begins with the quote that ends a string. -/
theorem fieldAt_ending (hname : Plain name) {rest : List Char}
    (hrest : ∀ c ∈ rest.head?, isWord c = false) : fieldAt space name ('"' :: rest) = none := by
  rw [fieldAt, if_neg]
  rw [List.isPrefixOf_iff_prefix, List.cons_append, List.cons_prefix_cons]
  rintro ⟨-, h⟩
  obtain ⟨hne, hword⟩ := hname
  cases name with
  | nil => exact hne rfl
  | cons c name =>
    cases rest with
    | nil => exact absurd (List.prefix_nil.1 h) (List.cons_ne_nil _ _)
    | cons d rest =>
      obtain ⟨rfl, -⟩ := List.cons_prefix_cons.1 h
      exact absurd (hword _ List.mem_cons_self) (by simp [hrest _ rfl])

/-- Where a string begins, the field is read if this is its name and a colon follows. -/
theorem fieldAt_quoted (hname : Plain name) {text rest : List Char} :
    fieldAt space name ('"' :: (escape text ++ '"' :: rest)) =
      if escape text = name then
        match rest.dropWhile space with
        | [] => none
        | c :: rest => if c = ':' then some (rest.dropWhile space) else none
      else none := by
  rw [fieldAt]
  by_cases heq : escape text = name
  · rw [if_pos heq, if_pos]
    · have hdrop : ('"' :: (escape text ++ '"' :: rest)).drop (name.length + 2) = rest := by
        rw [List.drop_succ_cons, heq, List.append_cons, List.drop_left' (by simp)]
      rw [hdrop]
    · rw [heq, List.isPrefixOf_iff_prefix]
      exact ⟨rest, by simp⟩
  · rw [if_neg heq, if_neg]
    rw [List.isPrefixOf_iff_prefix, List.cons_append, List.cons_prefix_cons]
    exact fun h => heq (escape_eq_of_front hname.2 h.2)

/-- A string that no colon follows is not taken for a name. -/
theorem fieldAt_value (hname : Plain name) {rest : List Char}
    (hcolon : (rest.dropWhile space).head? ≠ some ':') (text : List Char) :
    fieldAt space name ('"' :: (escape text ++ '"' :: rest)) = none := by
  rw [fieldAt_quoted hname]
  split_ifs
  · cases hdrop : rest.dropWhile space with
    | nil => rfl
    | cons c rest' =>
      have hc : c ≠ ':' := fun h => hcolon (by rw [hdrop, h]; rfl)
      exact if_neg hc
  · rfl

/-- Nothing in such a string is taken for a field. -/
theorem findField_escape (hname : Plain name) {rest : List Char}
    (hrest : ∀ c ∈ rest.head?, isWord c = false)
    (hcolon : (rest.dropWhile space).head? ≠ some ':') (text : List Char) :
    findField space name read (escape text ++ '"' :: rest) = findField space name read rest := by
  induction text with
  | nil =>
    change findField space name read ('"' :: rest) = _
    rw [findField, fieldAt_ending hname hrest]
    rfl
  | cons d text ih =>
    have hescape : escape (d :: text) = escapeChar d ++ escape text := List.flatMap_cons
    rw [hescape, List.append_assoc]
    rcases escapeChar_cases d with ⟨e, hchar⟩ | ⟨digits, hdigits, hchar⟩ | ⟨hquote, -, hchar⟩
    · rw [hchar, List.cons_append, findField_cons (by decide), List.singleton_append]
      by_cases he : e = '"'
      · rw [he, findField, fieldAt_value hname hcolon, ih]
        rfl
      · rw [findField_cons he, ih]
    · rw [hchar, List.cons_append, findField_cons (by decide), findField_append hdigits, ih]
    · rw [hchar, List.singleton_append, findField_cons hquote, ih]

theorem Ends.not_isWord {rest : List Char} (h : Ends rest) :
    ∀ c ∈ rest.head?, isWord c = false := by
  intro c hc
  rcases h c hc with rfl | rfl | rfl <;> decide

/-- What does not begin with anything that can be skipped. -/
theorem dropWhile_eq_self (hspace : Skips space) {text : List Char}
    (h : ∀ c ∈ text.head?, 0x20 < c.toNat) : text.dropWhile space = text := by
  cases text with
  | nil => rfl
  | cons c text =>
    have hc : ¬space c := fun hskip => absurd (hspace c hskip) (not_le.2 (h c rfl))
    rw [List.dropWhile_cons_of_neg hc]

theorem Ends.head?_dropWhile (hspace : Skips space) {rest : List Char} (h : Ends rest) :
    (rest.dropWhile space).head? ≠ some ':' := by
  rw [dropWhile_eq_self hspace]
  · intro hcolon
    rcases h ':' hcolon with h | h | h <;> exact absurd h (by decide)
  · intro c hc
    rcases h c hc with rfl | rfl | rfl <;> decide

/-- A string in the place of a value is passed over. -/
theorem findField_quote (hspace : Skips space) (hname : Plain name) {rest : List Char}
    (hrest : Ends rest) (text : List Char) :
    findField space name read (quote text ++ rest) = findField space name read rest := by
  have hcolon := hrest.head?_dropWhile hspace
  rw [quote, List.append_assoc, List.singleton_append, List.cons_append, findField]
  rw [fieldAt_value hname hcolon, findField_escape hname hrest.not_isWord hcolon]
  rfl

/-- A field is found where it is written. -/
theorem findField_member (hspace : Skips space) (hname : Plain name) {key : List Char}
    (hkey : Plain key) (text : List Char) :
    findField space name read (quote key ++ ':' :: text) =
      (if key = name then read (text.dropWhile space) else none).or
        (findField space name read text) := by
  have hopen : fieldAt space name ('"' :: (key ++ '"' :: ':' :: text)) =
      if key = name then some (text.dropWhile space) else none := by
    have hat : fieldAt space name ('"' :: (escape key ++ '"' :: ':' :: text)) = _ :=
      fieldAt_quoted hname
    rwa [escape_of_plain hkey, dropWhile_eq_self hspace (by simp)] at hat
  have hclose : fieldAt space name ('"' :: ':' :: text) = none := by
    refine fieldAt_ending hname fun c hc => ?_
    rw [← Option.some.inj hc]
    decide
  have hinside : findField space name read (key ++ '"' :: ':' :: text) =
      findField space name read text := by
    rw [findField_append (quote_not_mem_of_plain hkey), findField, hclose, findField_cons (by decide)]
    rfl
  rw [quote, escape_of_plain hkey, List.append_assoc, List.singleton_append, List.cons_append,
    findField, hopen, hinside]
  split_ifs <;> rfl

/-! ### Values -/

theorem findField_intercalate {β : Type*} {parts : List β} {text : β → List Char}
    {found : β → Option α}
    (h : ∀ part ∈ parts, ∀ rest, Ends rest → findField space name read (text part ++ rest) =
      (found part).or (findField space name read rest)) {rest : List Char} (hrest : Ends rest) :
    findField space name read ([','].intercalate (parts.map text) ++ rest) =
      (parts.findSome? found).or (findField space name read rest) := by
  have htail (parts : List β) (h : ∀ part ∈ parts, ∀ rest, Ends rest →
        findField space name read (text part ++ rest) =
          (found part).or (findField space name read rest)) :
      Ends ((parts.map text).flatMap ([','] ++ ·) ++ rest) ∧
        findField space name read ((parts.map text).flatMap ([','] ++ ·) ++ rest) =
          (parts.findSome? found).or (findField space name read rest) := by
    induction parts with
    | nil => exact ⟨hrest, rfl⟩
    | cons part parts ih =>
      obtain ⟨hpart, hparts⟩ := List.forall_mem_cons.1 h
      obtain ⟨hends, ih⟩ := ih hparts
      rw [List.map_cons, List.flatMap_cons, List.append_assoc, List.append_assoc,
        List.singleton_append]
      refine ⟨fun c hc => .inl (Option.some.inj hc).symm, ?_⟩
      rw [findField_cons (by decide), hpart _ hends, ih, List.findSome?_cons]
      cases found part <;> rfl
  cases parts with
  | nil => rfl
  | cons part parts =>
    obtain ⟨hpart, hparts⟩ := List.forall_mem_cons.1 h
    obtain ⟨hends, hrest⟩ := htail parts hparts
    rw [List.map_cons, Chars.intercalate_cons, List.append_assoc, hpart _ hends, hrest,
      List.findSome?_cons]
    cases found part <;> rfl

/-- A value begins with a character that cannot be skipped. -/
theorem head?_render (j : Json) (rest : List Char) :
    ∀ c ∈ (j.render ++ rest).head?, 0x20 < c.toNat := by
  intro c hc
  cases j with
  | null =>
    unfold render Chars.of at hc
    rw [← Option.some.inj hc]
    decide
  | bool value =>
    cases value
    · unfold render Chars.of at hc
      rw [← Option.some.inj hc]
      decide
    · unfold render Chars.of at hc
      rw [← Option.some.inj hc]
      decide
  | number value =>
    have hne : Chars.decimal value ≠ [] := Nat.toDigits_ne_nil
    rw [render, List.head?_append_of_ne_nil _ hne] at hc
    have hdigit := Chars.isDigit_of_mem_decimal (List.mem_of_mem_head? hc)
    simp only [Char.isDigit, Bool.and_eq_true, decide_eq_true_eq] at hdigit
    have hle : 48 ≤ c.toNat := hdigit.1
    omega
  | string value =>
    rw [← Option.some.inj hc]
    decide
  | array items =>
    rw [← Option.some.inj hc]
    decide
  | object members =>
    rw [← Option.some.inj hc]
    decide

/-- What is read of a value does not depend on what comes behind it. -/
def Reads (read : List Char → Option α) : Prop :=
  ∀ (j : Json) (rest : List Char), Ends rest → read (j.render ++ rest) = read j.render

/-- All names are plain. -/
def HasPlainNames (j : Json) : Prop := ∀ field ∈ j.fields, Plain field.1

theorem itemsFields_eq (items : List Json) : itemsFields items = items.flatMap fields := by
  induction items with
  | nil => rfl
  | cons item items ih => rw [itemsFields, ih, List.flatMap_cons]

theorem membersFields_eq (members : List (List Char × Json)) :
    membersFields members = members.flatMap fun member => member :: member.2.fields := by
  induction members with
  | nil => rfl
  | cons member members ih => rw [membersFields, ih, List.flatMap_cons, List.cons_append]

/-- The text of a field has its value to read. -/
def found (name : List Char) (read : List Char → Option α) (field : List Char × Json) : Option α :=
  if field.1 = name then read field.2.render else none

theorem findSome?_flatMap {β γ : Type*} (f : β → Option α) (g : γ → List β) (l : List γ) :
    (l.flatMap g).findSome? f = l.findSome? fun c => (g c).findSome? f := by
  induction l with
  | nil => rfl
  | cons c l ih =>
    rw [List.flatMap_cons, List.findSome?_append, ih, List.findSome?_cons]
    cases (g c).findSome? f <;> rfl

/-- What is found in the text before and behind the end of a value. -/
theorem findField_render_append (hspace : Skips space) (hname : Plain name) (hread : Reads read)
    (j : Json) (hplain : j.HasPlainNames) : ∀ rest, Ends rest →
    findField space name read (j.render ++ rest) =
      (j.fields.findSome? (found name read)).or (findField space name read rest) := by
  induction j using parts_induction with
  | null =>
    intro rest _
    exact findField_append (by unfold render Chars.of; decide) rest
  | bool value =>
    intro rest _
    refine findField_append ?_ rest
    cases value
    · unfold render Chars.of
      decide
    · unfold render Chars.of
      decide
  | number value =>
    intro rest _
    exact findField_append (fun h => absurd (Chars.isDigit_of_mem_decimal h) (by decide)) rest
  | string value => exact fun rest hrest => findField_quote hspace hname hrest value
  | array items ih =>
    intro rest hrest
    have hparts : ∀ item ∈ items, ∀ rest, Ends rest →
        findField space name read (item.render ++ rest) =
          (item.fields.findSome? (found name read)).or (findField space name read rest) := by
      refine fun item hitem => ih item hitem fun field hfield => hplain field ?_
      rw [fields, itemsFields_eq, List.mem_flatMap]
      exact ⟨item, hitem, hfield⟩
    have hends : Ends (']' :: rest) := fun c hc => .inr (.inl (Option.some.inj hc).symm)
    have htext : (array items).render ++ rest =
        '[' :: ([','].intercalate (items.map render) ++ ']' :: rest) := by
      rw [render, renderItems_eq, List.cons_append, List.cons_append, List.append_assoc]
      rfl
    rw [htext, findField_cons (by decide), findField_intercalate hparts hends,
      findField_cons (by decide), fields, itemsFields_eq, findSome?_flatMap]
  | object members ih =>
    intro rest hrest
    have hparts : ∀ member ∈ members, ∀ rest, Ends rest →
        findField space name read ((quote member.1 ++ ':' :: member.2.render) ++ rest) =
          ((member :: member.2.fields).findSome? (found name read)).or
            (findField space name read rest) := by
      intro member hmember rest hrest
      have hfields : ∀ field ∈ member :: member.2.fields, Plain field.1 := by
        refine fun field hfield => hplain field ?_
        rw [fields, membersFields_eq, List.mem_flatMap]
        exact ⟨member, hmember, hfield⟩
      obtain ⟨hkey, hvalue⟩ := List.forall_mem_cons.1 hfields
      rw [List.append_assoc, List.cons_append, findField_member hspace hname hkey,
        dropWhile_eq_self hspace (head?_render member.2 rest), hread member.2 rest hrest,
        ih member hmember hvalue rest hrest, List.findSome?_cons, found]
      split_ifs
      · cases read member.2.render <;> rfl
      · rfl
    have hends : Ends ('}' :: rest) := fun c hc => .inr (.inr (Option.some.inj hc).symm)
    have htext : (object members).render ++ rest = '{' :: ([','].intercalate
        (members.map fun member => quote member.1 ++ ':' :: member.2.render) ++ '}' :: rest) := by
      rw [render, renderFields_eq, List.cons_append, List.cons_append, List.append_assoc]
      rfl
    rw [htext, findField_cons (by decide), findField_intercalate hparts hends,
      findField_cons (by decide), fields, membersFields_eq, findSome?_flatMap]

/-- What is found in the text of a value is what the value has. -/
theorem findField_render (hspace : Skips space) (hname : Plain name) (hread : Reads read)
    {j : Json} (hplain : j.HasPlainNames) :
    findField space name read j.render = j.fields.findSome? (found name read) := by
  have h := findField_render_append hspace hname hread j hplain [] fun c hc => by cases hc
  rw [List.append_nil] at h
  rw [h]
  exact Option.or_none

theorem mem_fields_orNull {β : Type*} {f : β → Json} {value : Option β}
    {field : List Char × Json} :
    field ∈ (orNull f value).fields ↔ ∃ b ∈ value, field ∈ (f b).fields := by
  cases value <;> simp [orNull]

theorem mem_fields_array {items : List Json} {field : List Char × Json} :
    field ∈ (array items).fields ↔ ∃ item ∈ items, field ∈ item.fields := by
  rw [fields, itemsFields_eq, List.mem_flatMap]

theorem mem_fields_object {members : List (List Char × Json)} {field : List Char × Json} :
    field ∈ (object members).fields ↔
      ∃ member ∈ members, field = member ∨ field ∈ member.2.fields := by
  rw [fields, membersFields_eq, List.mem_flatMap]
  simp only [List.mem_cons]

@[simp] theorem hasPlainNames_null : null.HasPlainNames := fun _ h => absurd h List.not_mem_nil

@[simp] theorem hasPlainNames_bool (value : Bool) : (bool value).HasPlainNames :=
  fun _ h => absurd h List.not_mem_nil

@[simp] theorem hasPlainNames_number (value : ℕ) : (number value).HasPlainNames :=
  fun _ h => absurd h List.not_mem_nil

@[simp] theorem hasPlainNames_string (value : List Char) : (string value).HasPlainNames :=
  fun _ h => absurd h List.not_mem_nil

@[simp] theorem hasPlainNames_array {items : List Json} :
    (array items).HasPlainNames ↔ ∀ item ∈ items, item.HasPlainNames := by
  simp only [HasPlainNames, fields, itemsFields_eq, List.mem_flatMap]
  exact ⟨fun h item hitem field hfield => h field ⟨item, hitem, hfield⟩,
    fun h field ⟨item, hitem, hfield⟩ => h item hitem field hfield⟩

@[simp] theorem hasPlainNames_object {members : List (List Char × Json)} :
    (object members).HasPlainNames ↔
      ∀ member ∈ members, Plain member.1 ∧ member.2.HasPlainNames := by
  simp only [HasPlainNames, fields, membersFields_eq, List.mem_flatMap, List.mem_cons]
  constructor
  · exact fun h member hmember => ⟨h member ⟨member, hmember, .inl rfl⟩,
      fun field hfield => h field ⟨member, hmember, .inr hfield⟩⟩
  · rintro h field ⟨member, hmember, rfl | hfield⟩
    · exact (h field hmember).1
    · exact (h member hmember).2 field hfield

@[simp] theorem hasPlainNames_orNull {β : Type*} {f : β → Json} {value : Option β} :
    (orNull f value).HasPlainNames ↔ ∀ b ∈ value, (f b).HasPlainNames := by
  cases value <;> simp [orNull]

theorem fields_orNull {β : Type*} {f : β → Json} (h : ∀ b, (f b).fields = []) (value : Option β) :
    (orNull f value).fields = [] := by
  cases value with
  | none => rfl
  | some b => exact h b

end Finding

/-! ### Fields with a value -/

/-- What a field is written as. -/
def fieldText (name : List Char) (value : Json) : List Char := '"' :: name ++ '"' :: ':' :: value.render

/-- A text begins with another. -/
def readPrefix (start text : List Char) : Option Unit := if start.isPrefixOf text then some () else none

theorem readPrefix_eq_some {start text : List Char} : readPrefix start text = some () ↔ start <+: text := by
  rw [readPrefix, ← List.isPrefixOf_iff_prefix]
  split_ifs with h <;> simp [h]

/-- To look for the text of a field is to look for the field, where nothing can be skipped. -/
theorem fieldText_infix_iff {name text : List Char} {value : Json} : fieldText name value <:+: text ↔
    findField (fun _ => false) name (readPrefix value.render) text = some () := by
  have hdrop (text : List Char) : text.dropWhile (fun _ => false) = text := by cases text <;> rfl
  induction text with
  | nil => simp [fieldText, findField]
  | cons c text ih =>
    have hat : fieldText name value <+: c :: text ↔
        (fieldAt (fun _ => false) name (c :: text)).bind (readPrefix value.render) = some () := by
      have hsplit : fieldText name value = ('"' :: name ++ ['"']) ++ ':' :: value.render := by
        simp [fieldText]
      have hlength : ('"' :: name ++ ['"']).length = name.length + 2 := by simp
      rw [fieldAt, hdrop]
      by_cases hname : '"' :: name ++ ['"'] <+: c :: text
      · obtain ⟨rest, hrest⟩ := hname
        rw [if_pos (List.isPrefixOf_iff_prefix.2 ⟨rest, hrest⟩), ← hrest,
          List.drop_left' hlength, hsplit, List.prefix_append_right_inj]
        cases rest with
        | nil => simp
        | cons d rest =>
          rw [List.cons_prefix_cons]
          by_cases hd : d = ':'
          · simp [hd, readPrefix_eq_some, hdrop]
          · simp [hd, Ne.symm hd]
      · rw [if_neg (fun h => hname (List.isPrefixOf_iff_prefix.1 h))]
        refine ⟨fun h => (hname ?_).elim, fun h => by cases h⟩
        exact (List.prefix_append _ _).trans (hsplit ▸ h)
    refine List.infix_cons_iff.trans ((or_congr hat ih).trans ?_)
    rw [findField]
    cases (fieldAt (fun _ => false) name (c :: text)).bind (readPrefix value.render) <;> simp

/-- The value can be told from all others by how it begins. -/
def Leads (value : Json) : Prop := ∀ j rest, value.render <+: j.render ++ rest ↔ j = value

theorem fieldText_infix_render_iff {name : List Char} (hname : Plain name) {value j : Json}
    (hvalue : Leads value) (hplain : j.HasPlainNames) :
    fieldText name value <:+: j.render ↔ (name, value) ∈ j.fields := by
  have hskips : Skips fun _ => false := fun c h => by cases h
  have hread : Reads (readPrefix value.render) := by
    intro j rest _
    have hleads := (hvalue j rest).trans (hvalue j []).symm
    rw [List.append_nil] at hleads
    rw [readPrefix, readPrefix]
    exact if_congr (by simpa using hleads) rfl rfl
  rw [fieldText_infix_iff, findField_render hskips hname hread hplain]
  constructor
  · intro h
    obtain ⟨⟨key, w⟩, hfield, hfound⟩ := List.exists_of_findSome?_eq_some h
    rw [found] at hfound
    split_ifs at hfound with hkey
    have hw := (hvalue w []).1 (by rw [List.append_nil]; exact readPrefix_eq_some.1 hfound)
    have hsame : (key, w) = (name, value) := Prod.ext hkey hw
    rwa [← hsame]
  · intro h
    have hread : found name (readPrefix value.render) (name, value) = some () := by
      rw [found, if_pos rfl]
      exact readPrefix_eq_some.2 List.prefix_rfl
    have hsome := List.findSome?_isSome_iff.2 ⟨_, h, Option.isSome_of_eq_some hread⟩
    obtain ⟨_, hfound⟩ := Option.isSome_iff_exists.1 hsome
    exact hfound

theorem leads_bool (b : Bool) : Leads (bool b) := by
  have htrue : (bool true).render = ['t', 'r', 'u', 'e'] := by
    unfold render Chars.of
    decide
  have hfalse : (bool false).render = ['f', 'a', 'l', 's', 'e'] := by
    unfold render Chars.of
    decide
  have hnull : null.render = ['n', 'u', 'l', 'l'] := by
    unfold render Chars.of
    decide
  intro j rest
  refine ⟨fun h => ?_, fun h => h ▸ List.prefix_append _ _⟩
  cases j with
  | bool b' => cases b <;> cases b' <;> simp_all
  | number n =>
    obtain ⟨c, digits, hdigits, hc⟩ := Chars.exists_decimal n
    have hnumber : (number n).render = c :: digits := hdigits
    rw [hnumber, List.cons_append] at h
    cases b
    · rw [hfalse, List.cons_prefix_cons] at h
      rw [← h.1] at hc
      exact absurd hc (by decide)
    · rw [htrue, List.cons_prefix_cons] at h
      rw [← h.1] at hc
      exact absurd hc (by decide)
  | _ => cases b <;> simp_all [render, quote]

/-- Only a plain text is written as one. -/
theorem eq_of_escape_eq {text plain : List Char} (hplain : ∀ c ∈ plain, isWord c)
    (h : escape text = plain) : text = plain := by
  subst h
  induction text with
  | nil => rfl
  | cons c text ih =>
    have hescape : escape (c :: text) = escapeChar c ++ escape text := List.flatMap_cons
    rw [hescape, List.forall_mem_append] at hplain
    obtain ⟨hc, htext⟩ := hplain
    rw [hescape]
    rcases escapeChar_cases c with ⟨d, hchar⟩ | ⟨digits, -, hchar⟩ | ⟨-, -, hchar⟩
    · exact absurd (hc '\\' (hchar ▸ List.mem_cons_self)) (by decide)
    · exact absurd (hc '\\' (hchar ▸ List.mem_cons_self)) (by decide)
    · rw [hchar, List.singleton_append, ← ih htext]

theorem leads_string {text : List Char} (htext : Plain text) : Leads (string text) := by
  intro j rest
  refine ⟨fun h => ?_, fun h => h ▸ List.prefix_append _ _⟩
  rw [render, quote, escape_of_plain htext, List.cons_append] at h
  cases j with
  | null => simp [render, Chars.of] at h
  | bool b => cases b <;> simp [render, Chars.of] at h
  | number n =>
    obtain ⟨c, digits, hdigits, hc⟩ := Chars.exists_decimal n
    rw [render, hdigits, List.cons_append, List.cons_prefix_cons] at h
    rw [← h.1] at hc
    exact absurd hc (by decide)
  | string text' =>
    rw [render, quote, List.cons_append, List.cons_append, List.append_assoc,
      List.singleton_append, List.cons_prefix_cons] at h
    rw [eq_of_escape_eq htext.2 (escape_eq_of_front htext.2 h.2)]
  | array items => simp [render] at h
  | object members => simp [render] at h

end Json
