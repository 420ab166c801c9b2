import Hns.Lib.Bootstring
import Hns.Lib.Fallible

/-!
# The ASCII form of host names

`HostnameAscii` encodes the labels that `java.net.IDN` refuses by itself. What it returns for a
label is decoded to the label with its ASCII letters in lower case (`decode_punycodeEncode`): at any
time during the encoding the numbers written so far insert the code points handled so far
(`Encodes`).
-/

namespace Hns.HostnameAscii

def asciiLimit : ℕ := 0x80

def unicodeMax : ℕ := 0x10ffff

def surrogateMin : ℕ := 0xd800

def surrogateMax : ℕ := 0xdfff

def base : ℕ := 36

def tmin : ℕ := 1

def tmax : ℕ := 26

def skew : ℕ := 38

def damp : ℕ := 700

def initialBias : ℕ := 72

def initialN : ℕ := 128

def delimiter : Char := '-'

def isAsciiHostChar (char : Char) : Bool :=
  ('a' ≤ char ∧ char ≤ 'z') ∨ ('A' ≤ char ∧ char ≤ 'Z') ∨ ('0' ≤ char ∧ char ≤ '9') ∨ char = '-'

def encodeDigit (digit : ℕ) : Except String Char :=
  if digit ≤ 25 then .ok (Char.ofNat ('a'.toNat + digit))
  else if digit ≤ 35 then .ok (Char.ofNat ('0'.toNat + digit - 26))
  else .error "invalid punycode digit"

/-- The loop of `adapt`, and what is returned behind it. -/
def adaptLoop (delta k : ℕ) : ℕ :=
  if (base - tmin) * tmax / 2 < delta then adaptLoop (delta / (base - tmin)) (k + base)
  else k + (base - tmin + 1) * delta / (delta + skew)
termination_by delta
decreasing_by exact Nat.div_lt_self (Nat.zero_lt_of_lt ‹_›) (by decide)

def adapt (deltaValue numPoints : ℕ) (firstTime : Bool) : ℕ :=
  let delta := if firstTime then deltaValue / damp else deltaValue / 2
  adaptLoop (delta + delta / numPoints) 0

def threshold (bias k : ℕ) : ℕ :=
  if k ≤ bias + tmin then tmin else if bias + tmax ≤ k then tmax else k - bias

theorem quotient_lt {bias k q : ℕ} (h : ¬q < threshold bias k) :
    (q - threshold bias k) / (base - threshold bias k) < q := by
  have hpos : 0 < threshold bias k := by
    rw [threshold]
    split_ifs with hle <;> simp only [tmin, tmax] at * <;> omega
  exact (Nat.div_le_self _ _).trans_lt (by omega)

/-- The digits of `delta`, behind what has been written. -/
def encodeDigits (bias q k : ℕ) (output : List Char) : Except String (List Char) :=
  if q < threshold bias k then do
    return output ++ [← encodeDigit q]
  else do
    let digit := threshold bias k + (q - threshold bias k) % (base - threshold bias k)
    let char ← encodeDigit digit
    encodeDigits bias ((q - threshold bias k) / (base - threshold bias k)) (k + base)
      (output ++ [char])
termination_by q
decreasing_by exact quotient_lt ‹_›

/-- What changes while the code points are encoded. No `delta` of a label needs more than the 64
    bits that it has. -/
structure Encoding where
  output : List Char
  delta : ℕ
  bias : ℕ
  handled : ℕ

/-- One turn of the inner loop. -/
def encodeCodePoint (n handledPlusOne basicLength : ℕ) (s : Encoding) (codePoint : ℕ) :
    Except String Encoding := do
  let s := if codePoint < n then { s with delta := s.delta + 1 } else s
  if codePoint = n then
    let output ← encodeDigits s.bias s.delta base s.output
    return ⟨output, 0, adapt s.delta handledPlusOne (s.handled = basicLength), s.handled + 1⟩
  else return s

theorem handled_of_encodeCodePoint {n handledPlusOne basicLength codePoint : ℕ} {s s' : Encoding}
    (h : encodeCodePoint n handledPlusOne basicLength s codePoint = .ok s') :
    s'.handled = s.handled + if codePoint = n then 1 else 0 := by
  rw [encodeCodePoint] at h
  by_cases heq : codePoint = n
  · rw [if_pos heq, if_neg (by omega)] at h
    obtain ⟨output, -, h⟩ := Except.bind_eq_ok.1 h
    cases h
    rw [if_pos heq]
  · rw [if_neg heq] at h
    cases h
    rw [if_neg heq]
    split_ifs <;> rfl

theorem handled_of_foldlM {n handledPlusOne basicLength : ℕ} {codePoints : List ℕ} {s s' : Encoding}
    (h : codePoints.foldlM (encodeCodePoint n handledPlusOne basicLength) s = .ok s') :
    s'.handled = s.handled + codePoints.count n := by
  induction codePoints generalizing s with
  | nil =>
    cases h
    rfl
  | cons codePoint codePoints ih =>
    rw [List.foldlM_cons] at h
    obtain ⟨s₁, hfirst, hrest⟩ := Except.bind_eq_ok.1 h
    rw [ih hrest, handled_of_encodeCodePoint hfirst, List.count_cons, Nat.add_right_comm,
      Nat.add_assoc]
    simp only [beq_iff_eq]

/-- The outer loop: the least code point that is still to be handled, and all that are the same. -/
def encodeLoop (codePoints : List ℕ) (basicLength n : ℕ) (s : Encoding) :
    Except String (Option (List Char)) :=
  if s.handled < codePoints.length then
    match _hnext : (codePoints.filter (n ≤ ·)).min? with
    | none => .ok none
    | some next =>
      match hfold : codePoints.foldlM (encodeCodePoint next (s.handled + 1) basicLength)
          { s with delta := s.delta + (next - n) * (s.handled + 1) } with
      | .error e => .error e
      | .ok s' => encodeLoop codePoints basicLength (next + 1) { s' with delta := s'.delta + 1 }
  else .ok (some s.output)
termination_by codePoints.length - s.handled
decreasing_by
  have hcount : 0 < codePoints.count next :=
    List.count_pos_iff.2 (List.mem_filter.1 (List.min?_mem _hnext)).1
  have hhandled := handled_of_foldlM hfold
  dsimp only at hhandled ⊢
  omega

/-- `punycodeEncode`, of the code points of a label. -/
def punycodeEncode (codePoints : List ℕ) : Except String (Option (List Char)) :=
  if codePoints = [] ∨ codePoints.any fun codePoint =>
      (surrogateMin ≤ codePoint ∧ codePoint ≤ surrogateMax) ∨ unicodeMax < codePoint then
    .ok none
  else
    let basics := (codePoints.filter (· < asciiLimit)).map Char.ofNat
    if basics.all isAsciiHostChar then
      let output := basics.map Char.toLower
      let basicLength := output.length
      let output := if 0 < basicLength ∧ basicLength < codePoints.length then output ++ [delimiter]
        else output
      encodeLoop codePoints basicLength initialN ⟨output, 0, initialBias, basicLength⟩
    else .ok none

def toAsciiLabel (label : List Char) : Except String (Option (List Char)) :=
  if label = [] then .ok none
  else if label.all fun char => char.toNat < asciiLimit then
    .ok (if label.all isAsciiHostChar then some label else none)
  else do
    let encoded ← punycodeEncode (label.map Char.toNat)
    return encoded.map (['x', 'n', '-', '-'] ++ ·)

/-! ## Punycode -/

/-- The parameters of RFC 3492, section 5. -/
def punycode : Bootstring Char where
  base := 36
  tmin := 1
  tmax := 26
  skew := 38
  damp := 700
  initialBias := 72
  initialN := 128
  delimiter := '-'
  digit d := if d < 26 then Char.ofNat (0x61 + d) else Char.ofNat (0x30 + (d - 26))
  value c :=
    if 'a' ≤ c ∧ c ≤ 'z' then some (c.toNat - 0x61)
    else if 'A' ≤ c ∧ c ≤ 'Z' then some (c.toNat - 0x41)
    else if '0' ≤ c ∧ c ≤ '9' then some (c.toNat - 0x30 + 26)
    else none
  basic c := if c.toNat < 0x80 then some c.toNat else none
  tmin_pos := by decide
  tmin_le_tmax := by decide
  tmax_lt_base := by decide
  tmin_succ_lt_base := by decide
  value_digit := by decide
  value_delimiter := by decide

theorem encodeDigit_eq : ∀ digit < 36, encodeDigit digit = .ok (punycode.digit digit) := by decide

theorem adaptLoop_eq (delta k : ℕ) : adaptLoop delta k = punycode.adaptLoop delta k := by
  induction delta using Nat.strong_induction_on generalizing k with
  | h delta ih =>
    rw [adaptLoop, Bootstring.adaptLoop]
    change (if 455 < delta then _ else _) = if 455 < delta then _ else _
    split_ifs with hlt
    · exact ih (delta / 35) (by omega) (k + 36)
    · rfl

theorem adapt_eq (delta numPoints : ℕ) (firstTime : Bool) :
    adapt delta numPoints firstTime = punycode.adapt delta numPoints firstTime :=
  adaptLoop_eq _ _

theorem encodeDigits_eq (bias q k : ℕ) (output : List Char) :
    encodeDigits bias q k output = .ok (output ++ punycode.writeInt bias k q) := by
  induction q using Nat.strong_induction_on generalizing k output with
  | h q ih =>
    have hbase := punycode.threshold_lt_base bias k
    have hthreshold : threshold bias k = punycode.threshold bias k := rfl
    rw [encodeDigits, Bootstring.writeInt, hthreshold]
    split_ifs with hlt
    · rw [encodeDigit_eq q (hlt.trans hbase)]
      rfl
    · have hmod := Nat.mod_lt (q - punycode.threshold bias k) (Nat.sub_pos_of_lt hbase)
      have hdigit : punycode.threshold bias k + (q - punycode.threshold bias k) %
          (punycode.base - punycode.threshold bias k) < 36 := by
        change _ < punycode.base
        omega
      have hsame : base = punycode.base := rfl
      rw [hsame]
      dsimp only
      rw [encodeDigit_eq _ hdigit, Except.ok_bind, ih _ (punycode.quotient_lt hlt), List.append_assoc]
      rfl

theorem encodeCodePoint_eq (n handledPlusOne basicLength : ℕ) (s : Encoding) (codePoint : ℕ) :
    encodeCodePoint n handledPlusOne basicLength s codePoint =
      .ok (if codePoint < n then { s with delta := s.delta + 1 }
        else if codePoint = n then
          ⟨s.output ++ punycode.writeInt s.bias punycode.base s.delta, 0,
            punycode.adapt s.delta handledPlusOne (s.handled = basicLength), s.handled + 1⟩
        else s) := by
  rw [encodeCodePoint]
  by_cases heq : codePoint = n
  · have hlt : ¬codePoint < n := by omega
    rw [if_pos heq, if_neg hlt, if_neg hlt, if_pos heq, encodeDigits_eq, adapt_eq]
    rfl
  · rw [if_neg heq, if_neg heq]
    rfl

/-! ## The code points that are handled -/

/-- A code point, with an ASCII letter in lower case. -/
def lower (codePoint : ℕ) : ℕ :=
  if 'A'.toNat ≤ codePoint ∧ codePoint ≤ 'Z'.toNat then codePoint + 32 else codePoint

theorem lower_of_le {n : ℕ} (h : initialN ≤ n) : lower n = n := by
  have hupper : ¬('A'.toNat ≤ n ∧ n ≤ 'Z'.toNat) := fun hn =>
    absurd (h.trans hn.2) (by decide)
  rw [lower, if_neg hupper]

section

variable (front : List Char) (start : Bootstring.Decoded) (basicLength : ℕ)

/-- In the middle of a turn for `n`, between two parts of the label: what has been written is
    decoded to the code points below `n`, and `n` itself in the first part. `delta` counts from the
    last of them. -/
structure Encodes (n : ℕ) (before after : List ℕ) (s : Encoding) (d : Bootstring.Decoded) :
    Prop where
  written : ∃ deltas, s.output = front ++ punycode.write start deltas ∧
    d = punycode.insertDeltas start deltas
  decoded : d.output = (before.filter (· ≤ n)).map lower ++ (after.filter (· < n)).map lower
  bias : d.bias = s.bias
  le : d.n ≤ n
  handled : s.handled = d.output.length
  progress : d.n * (s.handled + 1) + d.i + s.delta =
    n * (s.handled + 1) + (before.filter (· ≤ n)).length
  basicLength_le : basicLength ≤ s.handled
  first : d.i = 0 ↔ s.handled = basicLength

/-- The number of points is only counted when a turn starts. It can be out of date when `n` is
    there more than once, but then `delta` is below it. -/
def Counts (n handledPlusOne : ℕ) (after : List ℕ) (s : Encoding) : Prop :=
  s.handled + 1 = handledPlusOne ∨
    (s.handled ≠ basicLength ∧ s.delta + (after.filter (· < n)).length < handledPlusOne ∧
      handledPlusOne ≤ s.handled)

variable {front start basicLength} {n handledPlusOne codePoint : ℕ} {before after : List ℕ}
  {s : Encoding} {d : Bootstring.Decoded}

theorem Encodes.adapt_numPoints (h : Encodes front start basicLength n before after s d)
    (hcounts : Counts basicLength n handledPlusOne after s) :
    punycode.adapt s.delta (d.output.length + 1) (d.i = 0) =
      punycode.adapt s.delta handledPlusOne (s.handled = basicLength) := by
  have hfirst : decide (d.i = 0) = decide (s.handled = basicLength) := decide_eq_decide.2 h.first
  rw [hfirst, ← h.handled]
  rcases hcounts with heq | ⟨hne, hlt, hle⟩
  · rw [heq]
  · rw [decide_eq_false hne]
    exact punycode.adapt_eq_of_lt (by omega) (by omega)

/-- One code point. -/
theorem Encodes.encodeCodePoint (h : Encodes front start basicLength n before (codePoint :: after) s d)
    (hn : initialN ≤ n) (hcounts : Counts basicLength n handledPlusOne (codePoint :: after) s) :
    ∃ s' d', encodeCodePoint n handledPlusOne basicLength s codePoint = .ok s' ∧
      Encodes front start basicLength n (before ++ [codePoint]) after s' d' ∧
      Counts basicLength n handledPlusOne after s' := by
  have hadapt := h.adapt_numPoints hcounts
  obtain ⟨⟨deltas, houtput, hdeltas⟩, hdecoded, hbias, hle, hhandled, hprogress, hbasic, hfirst⟩ := h
  rw [encodeCodePoint_eq]
  rw [Counts] at hcounts
  rcases Nat.lt_trichotomy codePoint n with hlt | heq | hgt
  · have hbefore : (before ++ [codePoint]).filter (· ≤ n) = before.filter (· ≤ n) ++ [codePoint] := by
      simp [hlt.le]
    have hafter : (codePoint :: after).filter (· < n) = codePoint :: after.filter (· < n) := by
      simp [hlt]
    rw [hafter] at hdecoded hcounts
    rw [List.length_cons] at hcounts
    rw [if_pos hlt]
    refine ⟨_, d, rfl, ⟨⟨deltas, houtput, hdeltas⟩, ?_, hbias, hle, hhandled, ?_, hbasic, hfirst⟩, ?_⟩
    · rw [hdecoded, hbefore, List.map_append, List.append_assoc]
      rfl
    · rw [hbefore, List.length_append, List.length_singleton]
      dsimp only
      omega
    · rw [Counts]
      dsimp only
      omega
  · subst heq
    have hbefore : (before ++ [codePoint]).filter (· ≤ codePoint) =
        before.filter (· ≤ codePoint) ++ [codePoint] := by simp
    have hafter : (codePoint :: after).filter (· < codePoint) = after.filter (· < codePoint) := by
      simp
    rw [hafter] at hdecoded hcounts
    rw [if_neg (Nat.lt_irrefl _), if_pos rfl]
    have hposition : (before.filter (· ≤ codePoint)).length =
        ((before.filter (· ≤ codePoint)).map lower).length := (List.length_map _).symm
    have hinsert := punycode.insertDelta_eq hdecoded hle
      (by rw [← hhandled, ← hposition]; exact hprogress)
    have hlength := congrArg List.length hdecoded
    rw [List.length_append, List.length_map, List.length_map, ← hhandled] at hlength
    refine ⟨_, punycode.insertDelta d s.delta, rfl, ⟨⟨deltas ++ [s.delta], ?_, ?_⟩, ?_, ?_, ?_, ?_, ?_,
      ?_, ?_⟩, ?_⟩
    · rw [punycode.write_concat, houtput, List.append_assoc, ← hdeltas, hbias]
    · rw [punycode.insertDeltas_concat, ← hdeltas]
    · rw [hinsert, hbefore, List.map_append, List.map_singleton, lower_of_le hn, List.append_assoc]
      rfl
    · rw [hinsert]
      exact hadapt
    · rw [hinsert]
    · rw [hinsert, List.length_append, List.length_cons, List.length_map, List.length_map]
      dsimp only
      omega
    · rw [hinsert, hbefore, List.length_append, List.length_map]
      rfl
    · exact Nat.le_succ_of_le hbasic
    · rw [hinsert]
      exact iff_of_false (Nat.succ_ne_zero _) (Nat.ne_of_gt (Nat.lt_succ_of_le hbasic))
    · rw [Counts]
      dsimp only
      omega
  · have hbefore : (before ++ [codePoint]).filter (· ≤ n) = before.filter (· ≤ n) := by simp [hgt]
    have hafter : (codePoint :: after).filter (· < n) = after.filter (· < n) := by simp [hgt.le]
    rw [hafter] at hdecoded hcounts
    rw [if_neg hgt.not_gt, if_neg hgt.ne']
    exact ⟨s, d, rfl, ⟨⟨deltas, houtput, hdeltas⟩, hbefore ▸ hdecoded, hbias, hle, hhandled,
      hbefore ▸ hprogress, hbasic, hfirst⟩, hcounts⟩

/-- A turn of the outer loop. -/
theorem Encodes.foldlM (h : Encodes front start basicLength n before after s d) (hn : initialN ≤ n)
    (hcounts : Counts basicLength n handledPlusOne after s) :
    ∃ s' d', after.foldlM (HostnameAscii.encodeCodePoint n handledPlusOne basicLength) s = .ok s' ∧
      Encodes front start basicLength n (before ++ after) [] s' d' := by
  induction after generalizing before s d with
  | nil => exact ⟨s, d, rfl, (List.append_nil before).symm ▸ h⟩
  | cons codePoint after ih =>
    obtain ⟨s₁, d₁, hfirst, hencodes, hcounts⟩ := h.encodeCodePoint hn hcounts
    obtain ⟨s', d', hrest, hencodes⟩ := ih hencodes hcounts
    refine ⟨s', d', ?_, ?_⟩
    · rw [List.foldlM_cons, hfirst, Except.ok_bind, hrest]
    · rwa [List.append_assoc, List.singleton_append] at hencodes

/-- With fewer than `2 ^ 31` code points `delta` has room in 64 bits, and a sign. -/
theorem Encodes.delta_lt (h : Encodes front start basicLength n before after s d)
    (hn : n ≤ unicodeMax) (hlength : before.length + after.length < 2 ^ 31) : s.delta < 2 ^ 63 := by
  have hbefore := List.length_filter_le (· ≤ n) before
  have hafter := List.length_filter_le (· < n) after
  have hhandled : s.handled + 1 ≤ 2 ^ 31 := by
    rw [h.handled, h.decoded, List.length_append, List.length_map, List.length_map]
    omega
  have hproduct : n * (s.handled + 1) ≤ unicodeMax * 2 ^ 31 := Nat.mul_le_mul hn hhandled
  have hprogress := h.progress
  rw [unicodeMax] at hproduct
  omega

/-- The next code point. -/
theorem Encodes.next {codePoints : List ℕ} {next : ℕ}
    (h : Encodes front start basicLength n [] codePoints s d) (hle : n ≤ next)
    (hnext : ∀ codePoint ∈ codePoints, n ≤ codePoint → next ≤ codePoint) :
    Encodes front start basicLength next [] codePoints
      { s with delta := s.delta + (next - n) * (s.handled + 1) } d := by
  obtain ⟨hwritten, hdecoded, hbias, hn, hhandled, hprogress, hbasic, hfirst⟩ := h
  have hfilter : codePoints.filter (· < next) = codePoints.filter (· < n) := by
    refine List.filter_congr fun codePoint hmem => decide_eq_decide.2 ?_
    exact ⟨fun hlt => Nat.lt_of_not_le fun hge => absurd (hnext codePoint hmem hge) hlt.not_ge,
      fun hlt => hlt.trans_le hle⟩
  refine ⟨hwritten, ?_, hbias, hn.trans hle, hhandled, ?_, hbasic, hfirst⟩
  · rw [hfilter]
    exact hdecoded
  · obtain ⟨steps, rfl⟩ := Nat.exists_eq_add_of_le hle
    rw [Nat.add_sub_cancel_left, Nat.add_mul]
    simp only [List.filter_nil, List.length_nil] at hprogress ⊢
    omega

/-- What is at most `n` is below the next number. -/
theorem Encodes.succ {codePoints : List ℕ}
    (h : Encodes front start basicLength n codePoints [] s d) :
    Encodes front start basicLength (n + 1) [] codePoints { s with delta := s.delta + 1 } d := by
  obtain ⟨hwritten, hdecoded, hbias, hn, hhandled, hprogress, hbasic, hfirst⟩ := h
  have hfilter : codePoints.filter (· < n + 1) = codePoints.filter (· ≤ n) :=
    List.filter_congr fun codePoint _ => decide_eq_decide.2 Nat.lt_succ_iff
  rw [List.filter_nil, List.map_nil, List.append_nil] at hdecoded
  refine ⟨hwritten, ?_, hbias, Nat.le_succ_of_le hn, hhandled, ?_, hbasic, hfirst⟩
  · rw [hfilter]
    exact hdecoded
  · have hlength := congrArg List.length hdecoded
    rw [List.length_map, ← hhandled] at hlength
    rw [Nat.add_mul]
    simp only [List.filter_nil, List.length_nil] at hprogress ⊢
    omega

/-- As long as not all code points are handled there is a next one. -/
theorem exists_min {codePoints : List ℕ} (h : (codePoints.filter (· < n)).length < codePoints.length) :
    ∃ next, (codePoints.filter (n ≤ ·)).min? = some next := by
  refine Option.ne_none_iff_exists'.1 fun hnone => ?_
  rw [List.min?_eq_none_iff, List.filter_eq_nil_iff] at hnone
  refine h.ne (congrArg List.length (List.filter_eq_self.2 fun codePoint hmem => ?_))
  have hlt := hnone codePoint hmem
  rw [decide_eq_true_iff, not_le] at hlt
  exact decide_eq_true hlt

/-- The loop ends, with all code points handled. -/
theorem encodeLoop_eq_ok {codePoints : List ℕ} (hn : initialN ≤ n)
    (h : Encodes front start basicLength n [] codePoints s d) :
    ∃ deltas, encodeLoop codePoints basicLength n s =
        .ok (some (front ++ punycode.write start deltas)) ∧
      (punycode.insertDeltas start deltas).output = codePoints.map lower := by
  induction hleft : codePoints.length - s.handled using Nat.strong_induction_on
    generalizing n s d with
  | h left ih =>
    have hdecoded : d.output = (codePoints.filter (· < n)).map lower := h.decoded
    have hlength : s.handled = (codePoints.filter (· < n)).length := by
      rw [h.handled, hdecoded, List.length_map]
    rw [encodeLoop]
    split_ifs with hlt
    · obtain ⟨next, hmin⟩ := exists_min (hlength ▸ hlt)
      obtain ⟨hmem, hleast⟩ := List.min?_eq_some_iff.1 hmin
      have hle : n ≤ next := of_decide_eq_true (List.mem_filter.1 hmem).2
      obtain ⟨s', d', hfold, hencodes⟩ := (h.next hle fun codePoint hcodePoint hge =>
        hleast codePoint (List.mem_filter.2 ⟨hcodePoint, decide_eq_true hge⟩)).foldlM
          (hn.trans hle) (.inl rfl)
      have hhandled := handled_of_foldlM hfold
      have hcount : 0 < codePoints.count next := List.count_pos_iff.2 (List.mem_filter.1 hmem).1
      dsimp only at hhandled
      split
      · next hnone =>
        rw [hmin] at hnone
        cases hnone
      · next next' hsome =>
        rw [hmin] at hsome
        cases hsome
        split
        · next e herror =>
          rw [hfold] at herror
          cases herror
        · next s'' hok =>
          rw [hfold] at hok
          cases hok
          exact ih _ (by dsimp only; omega) (Nat.le_succ_of_le (hn.trans hle)) hencodes.succ rfl
    · obtain ⟨deltas, houtput, hdeltas⟩ := h.written
      have hall : codePoints.filter (· < n) = codePoints :=
        List.filter_sublist.eq_of_length (by have := List.length_filter_le (· < n) codePoints; omega)
      rw [hall, hdeltas] at hdecoded
      exact ⟨deltas, by rw [houtput], hdecoded⟩

end

/-! ## Labels -/

theorem toNat_toLower (c : Char) : c.toLower.toNat = lower c.toNat := by
  rw [lower]
  by_cases h : 'A'.toNat ≤ c.toNat ∧ c.toNat ≤ 'Z'.toNat
  · have hval : c.val ≥ 'A'.val ∧ c.val ≤ 'Z'.val := h
    have hlower : c.toLower.toNat = (c.val.toNat + 32) % 2 ^ 32 :=
      congrArg Char.toNat (dif_pos hval)
    rw [hlower, if_pos h]
    change (c.val.toNat + 32) % 2 ^ 32 = c.val.toNat + 32
    have hle : c.val.toNat ≤ 90 := h.2
    exact Nat.mod_eq_of_lt (by omega)
  · have hval : ¬(c.val ≥ 'A'.val ∧ c.val ≤ 'Z'.val) := h
    have hlower : c.toLower = c := dif_neg hval
    rw [hlower, if_neg h]

/-- A label that `punycodeEncode` is for. -/
structure IsUnicodeLabel (label : List Char) : Prop where
  ascii : ∀ c ∈ label, c.toNat < asciiLimit → isAsciiHostChar c
  nonAscii : ∃ c ∈ label, asciiLimit ≤ c.toNat

theorem mapM_basic {chars : List Char} (h : ∀ c ∈ chars, c.toNat < asciiLimit) :
    chars.mapM punycode.basic = some (chars.map Char.toNat) := by
  induction chars with
  | nil => rfl
  | cons c chars ih =>
    rw [List.forall_mem_cons] at h
    have hbasic : punycode.basic c = some c.toNat := if_pos h.1
    rw [List.mapM_cons, hbasic, ih h.2]
    rfl

/-- The code points of a character are none that `punycodeEncode` refuses. -/
theorem isValid_toNat (c : Char) :
    ¬((surrogateMin ≤ c.toNat ∧ c.toNat ≤ surrogateMax) ∨ unicodeMax < c.toNat) := by
  have hvalid : c.toNat < 0xd800 ∨ (0xdfff < c.toNat ∧ c.toNat < 0x110000) := c.valid
  rw [surrogateMin, surrogateMax, unicodeMax]
  omega

theorem toNat_toLower_lt {c : Char} (h : c.toNat < asciiLimit) : c.toLower.toNat < asciiLimit := by
  rw [asciiLimit] at h ⊢
  have hlast : 'Z'.toNat = 90 := rfl
  rw [toNat_toLower, lower]
  split_ifs <;> omega

/-- The basic characters of a label. -/
theorem filter_ofNat (label : List Char) :
    ((label.map Char.toNat).filter (· < asciiLimit)).map Char.ofNat =
      label.filter fun c => c.toNat < asciiLimit := by
  rw [List.filter_map, List.map_map]
  exact (List.map_congr_left fun c _ => Char.ofNat_toNat c).trans (List.map_id _)

/-- What is written for a label, behind its basic characters. -/
theorem exists_encodeLoop (label front : List Char) :
    let basics := (label.filter fun c => c.toNat < asciiLimit).map Char.toLower
    ∃ deltas, encodeLoop (label.map Char.toNat) basics.length initialN
        ⟨front, 0, initialBias, basics.length⟩ =
        .ok (some (front ++ punycode.write ⟨128, 0, 72, basics.map Char.toNat⟩ deltas)) ∧
      (punycode.insertDeltas ⟨128, 0, 72, basics.map Char.toNat⟩ deltas).output =
        (label.map Char.toNat).map lower := by
  intro basics
  refine encodeLoop_eq_ok (d := ⟨128, 0, 72, basics.map Char.toNat⟩) (Nat.le_refl _)
    ⟨⟨[], (List.append_nil front).symm, rfl⟩, ?_, rfl, Nat.le_refl _, ?_, ?_, Nat.le_refl _,
      iff_of_true rfl rfl⟩
  · change basics.map Char.toNat = ((label.map Char.toNat).filter (· < asciiLimit)).map lower
    rw [List.filter_map, List.map_map, List.map_map]
    exact List.map_congr_left fun c _ => toNat_toLower c
  · exact (List.length_map _).symm
  · rfl

theorem exists_punycodeEncode {label : List Char} (h : IsUnicodeLabel label) :
    ∃ text, punycodeEncode (label.map Char.toNat) = .ok (some text) ∧
      punycode.decode text = some (label.map fun c => c.toLower.toNat) := by
  have hlower : (label.map Char.toNat).map lower = label.map fun c => c.toLower.toNat := by
    rw [List.map_map]
    exact List.map_congr_left fun c _ => (toNat_toLower c).symm
  have hvalid : ¬((label.map Char.toNat = []) ∨ ((label.map Char.toNat).any fun codePoint =>
      (surrogateMin ≤ codePoint ∧ codePoint ≤ surrogateMax) ∨ unicodeMax < codePoint) = true) := by
    rw [not_or, List.any_map, List.any_eq_true]
    obtain ⟨c, hc, -⟩ := h.nonAscii
    refine ⟨List.ne_nil_of_mem (List.mem_map_of_mem hc), ?_⟩
    rintro ⟨c, -, hrefused⟩
    exact isValid_toNat c (of_decide_eq_true hrefused)
  have hhost : (label.filter fun c => c.toNat < asciiLimit).all isAsciiHostChar := by
    refine List.all_eq_true.2 fun c hc => ?_
    obtain ⟨hmem, hlt⟩ := List.mem_filter.1 hc
    exact h.ascii c hmem (of_decide_eq_true hlt)
  have hlength : ((label.filter fun c => c.toNat < asciiLimit).map Char.toLower).length <
      (label.map Char.toNat).length := by
    obtain ⟨c, hc, hge⟩ := h.nonAscii
    rw [List.length_map, List.length_map]
    exact List.length_filter_lt_length_iff_exists.2 ⟨c, hc, by simpa using hge⟩
  have hbasic : ∀ c ∈ (label.filter fun c => c.toNat < asciiLimit).map Char.toLower,
      c.toNat < asciiLimit := by
    refine List.forall_mem_map.2 fun c hc => ?_
    exact toNat_toLower_lt (of_decide_eq_true (List.mem_filter.1 hc).2)
  rw [punycodeEncode, if_neg hvalid, filter_ofNat]
  dsimp only
  rw [if_pos hhost]
  by_cases hnil : (label.filter fun c => c.toNat < asciiLimit).map Char.toLower = []
  · -- Without basic characters there is no delimiter.
    have hempty : ¬(0 < ((label.filter fun c => c.toNat < asciiLimit).map Char.toLower).length ∧
        ((label.filter fun c => c.toNat < asciiLimit).map Char.toLower).length <
          (label.map Char.toNat).length) := by
      rw [hnil]
      exact fun hpos => Nat.lt_irrefl _ hpos.1
    obtain ⟨deltas, hloop, hdeltas⟩ :=
      exists_encodeLoop label ((label.filter fun c => c.toNat < asciiLimit).map Char.toLower)
    rw [if_neg hempty]
    refine ⟨_, hloop, ?_⟩
    rw [hnil] at hdeltas ⊢
    rw [List.nil_append, punycode.decode_digits (punycode.delimiter_not_mem_write _ _), ← hlower,
      ← hdeltas]
    exact punycode.decodeLoop_write _ _
  · have hpos := List.length_pos_iff.2 hnil
    obtain ⟨deltas, hloop, hdeltas⟩ := exists_encodeLoop label
      ((label.filter fun c => c.toNat < asciiLimit).map Char.toLower ++ [delimiter])
    rw [if_pos ⟨hpos, hlength⟩]
    refine ⟨_, hloop, ?_⟩
    have hdelimiter : delimiter = punycode.delimiter := rfl
    rw [List.append_assoc, List.singleton_append, hdelimiter, punycode.decode_append hnil (punycode.delimiter_not_mem_write _ _), mapM_basic hbasic,
      Option.bind_some, ← hlower, ← hdeltas]
    exact punycode.decodeLoop_write _ _

/-- A label with other characters is encoded. -/
theorem toAsciiLabel_eq {label : List Char} (h : IsUnicodeLabel label) :
    toAsciiLabel label = (punycodeEncode (label.map Char.toNat)).map fun encoded =>
      encoded.map (['x', 'n', '-', '-'] ++ ·) := by
  obtain ⟨c, hc, hge⟩ := h.nonAscii
  have hall : ¬(label.all fun char => char.toNat < asciiLimit) = true := fun hall =>
    absurd (of_decide_eq_true (List.all_eq_true.1 hall c hc)) hge.not_gt
  rw [toAsciiLabel, if_neg (List.ne_nil_of_mem hc), if_neg hall]
  cases punycodeEncode (label.map Char.toNat) <;> rfl

/-- What `punycodeEncode` returns for a label is decoded to the label, with its ASCII letters in
    lower case. So no other label has the same ASCII form, but for the case of these. -/
theorem decode_punycodeEncode {label : List Char} (h : IsUnicodeLabel label) :
    (∃ text, punycodeEncode (label.map Char.toNat) = .ok (some text) ∧
      punycode.decode text = some (label.map fun c => c.toLower.toNat)) ∧
    ∀ other, IsUnicodeLabel other → toAsciiLabel other = toAsciiLabel label →
      other.map Char.toLower = label.map Char.toLower := by
  refine ⟨exists_punycodeEncode h, fun other hother heq => ?_⟩
  obtain ⟨text, hencode, hdecode⟩ := exists_punycodeEncode h
  obtain ⟨text', hencode', hdecode'⟩ := exists_punycodeEncode hother
  rw [toAsciiLabel_eq h, toAsciiLabel_eq hother, hencode, hencode'] at heq
  have hsame : some (['x', 'n', '-', '-'] ++ text') = some (['x', 'n', '-', '-'] ++ text) :=
    Except.ok.inj heq
  rw [List.append_cancel_left (Option.some.inj hsame), hdecode] at hdecode'
  have hcodes := Option.some.inj hdecode'
  refine List.map_injective_iff.2 (fun a b => Char.toNat_inj.1) ?_
  rw [List.map_map, List.map_map]
  exact hcodes.symm

theorem decode_punycodeEncode_umlaut :
    IsUnicodeLabel ['B', 'ü', '-', 'ü'] ∧ ∃ text,
      punycodeEncode (['B', 'ü', '-', 'ü'].map Char.toNat) = .ok (some text) ∧
        punycode.decode text = some (['b', 'ü', '-', 'ü'].map Char.toNat) := by
  have hascii : ['B', 'ü', '-', 'ü'].all fun c => c.toNat < asciiLimit → isAsciiHostChar c := by
    decide
  have hlabel : IsUnicodeLabel ['B', 'ü', '-', 'ü'] :=
    ⟨fun c hc => of_decide_eq_true (List.all_eq_true.1 hascii c hc), 'ü', by simp, by decide⟩
  exact ⟨hlabel, (decode_punycodeEncode hlabel).1⟩

end Hns.HostnameAscii
