import Mathlib.Tactic.Ring
import Mathlib.Data.List.TakeWhile

/-!
# Bootstring

The decoder of RFC 3492, section 6.2, for any parameters: the basic characters of a text stand in
front, and behind the last delimiter are numbers that say where the others go, and which these are.
A number is read back from its digits (`readInt_writeInt`), and so is a sequence of them
(`decodeLoop_write`). A text is decoded when the numbers insert its characters in the order of
their code points: `insertDelta_eq` says what number that takes.
-/

/-- The parameters of Bootstring, and the digits. -/
structure Bootstring (α : Type*) where
  base : ℕ
  tmin : ℕ
  tmax : ℕ
  skew : ℕ
  damp : ℕ
  initialBias : ℕ
  initialN : ℕ
  delimiter : α
  digit : ℕ → α
  value : α → Option ℕ
  /-- The code point of a basic character. -/
  basic : α → Option ℕ
  tmin_pos : 0 < tmin
  tmin_le_tmax : tmin ≤ tmax
  tmax_lt_base : tmax < base
  tmin_succ_lt_base : tmin + 1 < base
  value_digit : ∀ d < base, value (digit d) = some d
  value_delimiter : value delimiter = none

namespace Bootstring

variable {α : Type*} (params : Bootstring α)

/-! ## Numbers -/

def threshold (bias k : ℕ) : ℕ :=
  if k ≤ bias + params.tmin then params.tmin
  else if bias + params.tmax ≤ k then params.tmax
  else k - bias

theorem threshold_pos (bias k : ℕ) : 0 < params.threshold bias k := by
  have h := params.tmin_pos
  have hle := params.tmin_le_tmax
  rw [threshold]
  split_ifs <;> omega

theorem threshold_lt_base (bias k : ℕ) : params.threshold bias k < params.base := by
  have hle := params.tmin_le_tmax
  have hlt := params.tmax_lt_base
  rw [threshold]
  split_ifs <;> omega

theorem quotient_lt {bias k q : ℕ} (h : ¬q < params.threshold bias k) :
    (q - params.threshold bias k) / (params.base - params.threshold bias k) < q := by
  have hpos := params.threshold_pos bias k
  exact (Nat.div_le_self _ _).trans_lt (by omega)

/-- The digits of a number, the lowest first. A digit below the threshold is the last one. -/
def writeInt (bias k q : ℕ) : List α :=
  if q < params.threshold bias k then [params.digit q]
  else
    params.digit (params.threshold bias k +
        (q - params.threshold bias k) % (params.base - params.threshold bias k)) ::
      writeInt bias (k + params.base)
        ((q - params.threshold bias k) / (params.base - params.threshold bias k))
termination_by q
decreasing_by exact params.quotient_lt ‹_›

/-- The number in front, with the digits read so far in `i` and the weight of the next. -/
def readInt (bias : ℕ) : ℕ → ℕ → ℕ → List α → Option (ℕ × List α)
  | _, _, _, [] => none
  | k, weight, i, c :: text =>
    (params.value c).bind fun digit =>
      let threshold := params.threshold bias k
      let i := i + digit * weight
      if digit < threshold then some (i, text)
      else readInt bias (k + params.base) (weight * (params.base - threshold)) i text

theorem readInt_writeInt (bias k weight i q : ℕ) (rest : List α) :
    params.readInt bias k weight i (params.writeInt bias k q ++ rest) =
      some (i + q * weight, rest) := by
  induction q using Nat.strong_induction_on generalizing k weight i with
  | h q ih =>
    have hbase := params.threshold_lt_base bias k
    rw [writeInt]
    split_ifs with hlt
    · rw [List.singleton_append, readInt, params.value_digit q (hlt.trans hbase), Option.bind_some,
        if_pos hlt]
    · have hmod := Nat.mod_lt (q - params.threshold bias k) (Nat.sub_pos_of_lt hbase)
      rw [List.cons_append, readInt, params.value_digit _ (by omega), Option.bind_some,
        if_neg (by omega), ih _ (params.quotient_lt hlt)]
      generalize params.threshold bias k = t at hlt hbase ⊢
      have hsum := Nat.div_add_mod (q - t) (params.base - t)
      have hq : t + (q - t) = q := by omega
      have hvalue : (t + (q - t) % (params.base - t)) * weight +
          (q - t) / (params.base - t) * (weight * (params.base - t)) = q * weight := by
        calc _ = (t + ((params.base - t) * ((q - t) / (params.base - t)) +
              (q - t) % (params.base - t))) * weight := by ring
          _ = q * weight := by rw [hsum, hq]
      rw [Nat.add_assoc, hvalue]

theorem length_readInt_lt {bias k weight i delta : ℕ} {text rest : List α}
    (h : params.readInt bias k weight i text = some (delta, rest)) : rest.length < text.length := by
  induction text generalizing k weight i with
  | nil => cases h
  | cons c text ih =>
    rw [readInt] at h
    obtain ⟨digit, -, h⟩ := Option.bind_eq_some_iff.1 h
    dsimp only at h
    split_ifs at h with hlt
    · cases h
      exact Nat.lt_succ_self _
    · exact (ih h).trans (Nat.lt_succ_self _)

/-- The delimiter is not a digit. -/
theorem delimiter_not_mem_writeInt (bias k q : ℕ) :
    params.delimiter ∉ params.writeInt bias k q := by
  have hdigit : ∀ d < params.base, params.delimiter ≠ params.digit d := by
    intro d hd heq
    have hvalue := params.value_digit d hd
    rw [← heq, params.value_delimiter] at hvalue
    cases hvalue
  induction q using Nat.strong_induction_on generalizing k with
  | h q ih =>
    have hbase := params.threshold_lt_base bias k
    rw [writeInt]
    split_ifs with hlt
    · rw [List.mem_singleton]
      exact hdigit q (hlt.trans hbase)
    · rw [List.mem_cons, not_or]
      have hmod := Nat.mod_lt (q - params.threshold bias k) (Nat.sub_pos_of_lt hbase)
      exact ⟨hdigit _ (by omega), ih _ (params.quotient_lt hlt) _⟩

/-! ## Adaptation -/

/-- The loop of `adapt`. -/
def adaptLoop (delta k : ℕ) : ℕ :=
  if (params.base - params.tmin) * params.tmax / 2 < delta then
    adaptLoop (delta / (params.base - params.tmin)) (k + params.base)
  else k + (params.base - params.tmin + 1) * delta / (delta + params.skew)
termination_by delta
decreasing_by
  have h := params.tmin_succ_lt_base
  exact Nat.div_lt_self (by omega) (by omega)

def adapt (delta numPoints : ℕ) (firstTime : Bool) : ℕ :=
  let delta := if firstTime then delta / params.damp else delta / 2
  params.adaptLoop (delta + delta / numPoints) 0

/-- Below the number of points, that number does not matter. -/
theorem adapt_eq_of_lt {delta numPoints numPoints' : ℕ} (h : delta < numPoints)
    (h' : delta < numPoints') :
    params.adapt delta numPoints false = params.adapt delta numPoints' false := by
  have hhalf := Nat.div_le_self delta 2
  have hzero : delta / 2 / numPoints = 0 := Nat.div_eq_of_lt (by omega)
  have hzero' : delta / 2 / numPoints' = 0 := Nat.div_eq_of_lt (by omega)
  rw [adapt, adapt, if_neg Bool.false_ne_true, hzero, hzero']

/-! ## Insertions -/

/-- What has been decoded so far, the code point that has been inserted last, and the position
    behind it. -/
structure Decoded where
  n : ℕ
  i : ℕ
  bias : ℕ
  output : List ℕ

def insertDelta (s : Decoded) (delta : ℕ) : Decoded :=
  let numPoints := s.output.length + 1
  let i := s.i + delta
  let n := s.n + i / numPoints
  { n
    i := i % numPoints + 1
    bias := params.adapt delta numPoints (s.i = 0)
    output := s.output.insertIdx (i % numPoints) n }

theorem insertIdx_length (before after : List ℕ) (n : ℕ) :
    (before ++ after).insertIdx before.length n = before ++ n :: after := by
  induction before with
  | nil => rfl
  | cons c before ih => rw [List.cons_append, List.length_cons, List.insertIdx_succ_cons, ih,
      List.cons_append]

/-- A number is that of the next code point and its position, as they are counted on from those of
    the last one. -/
theorem insertDelta_eq {s : Decoded} {delta n : ℕ} {before after : List ℕ}
    (houtput : s.output = before ++ after) (hn : s.n ≤ n)
    (h : s.n * (s.output.length + 1) + s.i + delta = n * (s.output.length + 1) + before.length) :
    params.insertDelta s delta =
      { n
        i := before.length + 1
        bias := params.adapt delta (s.output.length + 1) (s.i = 0)
        output := before ++ n :: after } := by
  have hlt : before.length < s.output.length + 1 := by
    rw [houtput, List.length_append]
    omega
  obtain ⟨steps, rfl⟩ := Nat.exists_eq_add_of_le hn
  have hi : s.i + delta = before.length + steps * (s.output.length + 1) := by
    rw [Nat.add_mul] at h
    omega
  have hdiv : (s.i + delta) / (s.output.length + 1) = steps := by
    rw [hi, Nat.add_mul_div_right _ _ (Nat.succ_pos _), Nat.div_eq_of_lt hlt, Nat.zero_add]
  have hmod : (s.i + delta) % (s.output.length + 1) = before.length := by
    rw [hi, Nat.add_mul_mod_self_right, Nat.mod_eq_of_lt hlt]
  rw [insertDelta, hdiv, hmod, houtput, insertIdx_length]

/-! ## Decoding -/

def decodeLoop (s : Decoded) (text : List α) : Option (List ℕ) :=
  if text = [] then some s.output
  else
    match _h : params.readInt s.bias params.base 1 0 text with
    | none => none
    | some (delta, rest) => decodeLoop (params.insertDelta s delta) rest
termination_by text.length
decreasing_by exact params.length_readInt_lt _h

/-- The basic characters and the digits: what is in front of the last delimiter, if that is
    anything, and what is behind. -/
def split [DecidableEq α] (text : List α) : List α × List α :=
  match text.reverse.dropWhile (· ≠ params.delimiter) with
  | [] => ([], text)
  | [_] => ([], text)
  | _ :: front => (front.reverse, (text.reverse.takeWhile (· ≠ params.delimiter)).reverse)

def decode [DecidableEq α] (text : List α) : Option (List ℕ) :=
  ((params.split text).1.mapM params.basic).bind fun basics =>
    params.decodeLoop ⟨params.initialN, 0, params.initialBias, basics⟩ (params.split text).2

/-! ## Sequences of numbers -/

def insertDeltas (s : Decoded) (deltas : List ℕ) : Decoded := deltas.foldl params.insertDelta s

/-- The digits of numbers that are read one after the other. -/
def write (s : Decoded) : List ℕ → List α
  | [] => []
  | delta :: deltas =>
    params.writeInt s.bias params.base delta ++ write (params.insertDelta s delta) deltas

theorem insertDeltas_concat (s : Decoded) (deltas : List ℕ) (delta : ℕ) :
    params.insertDeltas s (deltas ++ [delta]) =
      params.insertDelta (params.insertDeltas s deltas) delta := by
  rw [insertDeltas, List.foldl_append]
  rfl

theorem write_concat (s : Decoded) (deltas : List ℕ) (delta : ℕ) :
    params.write s (deltas ++ [delta]) =
      params.write s deltas ++
        params.writeInt (params.insertDeltas s deltas).bias params.base delta := by
  induction deltas generalizing s with
  | nil =>
    rw [List.nil_append, write, write, write, List.append_nil, List.nil_append]
    rfl
  | cons first deltas ih =>
    rw [List.cons_append, write, ih, write, List.append_assoc]
    rfl

theorem delimiter_not_mem_write (s : Decoded) (deltas : List ℕ) :
    params.delimiter ∉ params.write s deltas := by
  induction deltas generalizing s with
  | nil => exact List.not_mem_nil
  | cons delta deltas ih =>
    rw [write, List.mem_append, not_or]
    exact ⟨params.delimiter_not_mem_writeInt _ _ _, ih _⟩

theorem writeInt_ne_nil (bias k q : ℕ) : params.writeInt bias k q ≠ [] := by
  rw [writeInt]
  split_ifs <;> exact List.cons_ne_nil _ _

theorem decodeLoop_write (s : Decoded) (deltas : List ℕ) :
    params.decodeLoop s (params.write s deltas) = some (params.insertDeltas s deltas).output := by
  induction deltas generalizing s with
  | nil =>
    rw [write, decodeLoop, if_pos rfl]
    rfl
  | cons delta deltas ih =>
    have hread := params.readInt_writeInt s.bias params.base 1 0 delta
      (params.write (params.insertDelta s delta) deltas)
    rw [write, decodeLoop, if_neg fun h => params.writeInt_ne_nil _ _ _ (List.append_eq_nil_iff.1 h).1]
    split
    · next hnone =>
      rw [hread] at hnone
      cases hnone
    · next delta' rest hsome =>
      rw [hread, Nat.zero_add, Nat.mul_one] at hsome
      cases hsome
      exact ih _

theorem forall_ne_delimiter [DecidableEq α] {digits : List α} (h : params.delimiter ∉ digits) :
    ∀ c ∈ digits.reverse, (decide (c ≠ params.delimiter)) = true := fun _ hc =>
  decide_eq_true fun heq => h (heq ▸ List.mem_reverse.1 hc)

/-- A text without a delimiter is all digits. -/
theorem decode_digits [DecidableEq α] {digits : List α} (h : params.delimiter ∉ digits) :
    params.decode digits =
      params.decodeLoop ⟨params.initialN, 0, params.initialBias, []⟩ digits := by
  have hsplit : params.split digits = ([], digits) := by
    rw [split, List.dropWhile_eq_nil_iff.2 (params.forall_ne_delimiter h)]
  rw [decode, hsplit]
  rfl

theorem decode_append [DecidableEq α] {front digits : List α} (hne : front ≠ [])
    (h : params.delimiter ∉ digits) :
    params.decode (front ++ params.delimiter :: digits) =
      (front.mapM params.basic).bind fun basics =>
        params.decodeLoop ⟨params.initialN, 0, params.initialBias, basics⟩ digits := by
  have hreverse : (front ++ params.delimiter :: digits).reverse =
      digits.reverse ++ params.delimiter :: front.reverse := by simp
  have hdrop : (front ++ params.delimiter :: digits).reverse.dropWhile (· ≠ params.delimiter) =
      params.delimiter :: front.reverse := by
    rw [hreverse, List.dropWhile_append_of_pos (params.forall_ne_delimiter h),
      List.dropWhile_cons_of_neg (by simp)]
  have htake : (front ++ params.delimiter :: digits).reverse.takeWhile (· ≠ params.delimiter) =
      digits.reverse := by
    rw [hreverse, List.takeWhile_append_of_pos (params.forall_ne_delimiter h),
      List.takeWhile_cons_of_neg (by simp), List.append_nil]
  have hsplit : params.split (front ++ params.delimiter :: digits) = (front, digits) := by
    rw [split, hdrop]
    cases hfront : front.reverse with
    | nil => exact absurd (List.reverse_eq_nil_iff.1 hfront) hne
    | cons c rest =>
      dsimp only
      rw [htake, ← hfront, List.reverse_reverse, List.reverse_reverse]
  rw [decode, hsplit]

end Bootstring
