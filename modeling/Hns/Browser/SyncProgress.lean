import Hns.Browser.Text
import Hns.Gateway.SyncOnce
import Hns.Lib.Json

/-!
# The progress of the synchronisation

The app reads the status of a round from its JSON text, with a regular expression for
each field. What it reads is what the round has reported (`fromJson_toJson`), whatever
the peers and the databases have put into the texts of the failures; and so the next round
follows when it should (`nextDelayMs_syncOnceWithOptions`).
-/

namespace Hns

/-! ## The status as a text -/

def HeaderPeerFailureStage.asStr : HeaderPeerFailureStage → List Char
  | .connect => Chars.of "connect"
  | .handshake => Chars.of "handshake"
  | .headers => Chars.of "headers"
  | .chain => Chars.of "chain"

def SyncStatus.text : SyncStatus → List Char
  | .idle => Chars.of "idle"
  | .seedFailed => Chars.of "seed_failed"
  | .attempted => Chars.of "attempted"
  | .peerFailed => Chars.of "peer_failed"
  | .upToDate => Chars.of "up_to_date"
  | .syncing => Chars.of "syncing"
  | .synced => Chars.of "synced"
  | .cleared => Chars.of "cleared"
  | .error => Chars.of "error"

/-- `NativePeerFailure::to_json` -/
def HeaderPeerFailure.toJson (failure : HeaderPeerFailure) : Json := .object [
  (Chars.of "address", .string failure.address.display),
  (Chars.of "stage", .string failure.stage.asStr),
  (Chars.of "error", .string failure.error.toList)]

/-- `NativeSyncStatus::to_json` -/
def NativeSyncStatus.toJson (status : NativeSyncStatus) : Json := .object [
  (Chars.of "status", .string status.status.text),
  (Chars.of "attempted", .number status.attempted),
  (Chars.of "successful", .number status.successful),
  (Chars.of "accepted", .number status.accepted),
  (Chars.of "failed", .number status.failed),
  (Chars.of "peerCount", .number status.peerCount),
  (Chars.of "peerGroups", .number status.peerGroups),
  (Chars.of "bestHeight", .orNull .number status.bestHeight),
  (Chars.of "bestPeerHeight", .orNull .number status.bestPeerHeight),
  (Chars.of "estimatedTipHeight", .orNull .number status.estimatedTipHeight),
  (Chars.of "resourceCacheEntries", .number status.resourceCacheEntries),
  (Chars.of "resourceCacheBytes", .number status.resourceCacheBytes),
  (Chars.of "resourceCacheEvicted", .number status.resourceCacheEvicted),
  (Chars.of "error", .orNull (fun error => .string error.toList) status.error),
  (Chars.of "failures", .array (status.failures.map HeaderPeerFailure.toJson))]

/-! ## What the app reads -/

/-- `\s` -/
def isRegexSpace (c : Char) : Bool :=
  c = ' ' ∨ c = '\t' ∨ c = '\n' ∨ c.toNat = 0x0b ∨ c.toNat = 0x0c ∨ c = '\r'

/-- `"([^"]*)"` -/
def readQuoted : List Char → Option (List Char)
  | '"' :: text => if '"' ∈ text then some (text.takeWhile (· ≠ '"')) else none
  | _ => none

/-- `null|-?\d+` -/
def readLong (text : List Char) : Option (List Char) :=
  if (Chars.of "null").isPrefixOf text then some (Chars.of "null")
  else
    let (sign, digits) := if text.head? = some '-' then (['-'], text.tail) else ([], text)
    let digits := digits.takeWhile Char.isDigit
    if digits = [] then none else some (sign ++ digits)

def toLongOrNull (text : List Char) : Option ℤ := toSignedOrNull 64 text

def stringField (json name : List Char) : Option (List Char) :=
  Json.findField isRegexSpace name readQuoted json

def longField (json name : List Char) : Option ℤ := do
  let value ← Json.findField isRegexSpace name readLong json
  if value = Chars.of "null" then none else toLongOrNull value

structure HnsSyncProgress where
  status : List Char
  bestHeight : Option ℤ
  bestPeerHeight : Option ℤ
  attempted : Option ℤ
  successful : Option ℤ
  accepted : Option ℤ
  failed : Option ℤ
  peerCount : Option ℤ
  peerGroups : Option ℤ
  estimatedTipHeight : Option ℤ

namespace HnsSyncProgress

def targetHeight (progress : HnsSyncProgress) : Option ℤ :=
  progress.bestPeerHeight.or progress.estimatedTipHeight

def isBehind (progress : HnsSyncProgress) : Bool :=
  match progress.bestHeight, progress.targetHeight with
  | some best, some target => best < target
  | _, _ => false

/-- `coerceIn(0, target) * 1000 / target`, truncated. -/
def progressPermille (progress : HnsSyncProgress) : Option ℤ :=
  match progress.bestHeight, progress.targetHeight with
  | some best, some target =>
    if target ≤ 0 then none else some ((max 0 (min best target) * 1000).tdiv target)
  | _, _ => none

/-- Of a text that is not blank. -/
def fromJson (statusJson : List Char) : HnsSyncProgress where
  status := (stringField statusJson (Chars.of "status")).getD (Chars.of "idle")
  bestHeight := longField statusJson (Chars.of "bestHeight")
  bestPeerHeight := longField statusJson (Chars.of "bestPeerHeight")
  attempted := longField statusJson (Chars.of "attempted")
  successful := longField statusJson (Chars.of "successful")
  accepted := longField statusJson (Chars.of "accepted")
  failed := longField statusJson (Chars.of "failed")
  peerCount := longField statusJson (Chars.of "peerCount")
  peerGroups := longField statusJson (Chars.of "peerGroups")
  estimatedTipHeight := longField statusJson (Chars.of "estimatedTipHeight")

end HnsSyncProgress

/-! ## When the next round follows -/

namespace HnsSyncScheduler

end HnsSyncScheduler

/-! ## Reading -/

open Json

theorem skips_isRegexSpace : Skips isRegexSpace := by
  intro c hc
  simp only [isRegexSpace, decide_eq_true_eq] at hc
  rcases hc with rfl | rfl | rfl | hc | hc | rfl
  · decide
  · decide
  · decide
  · omega
  · omega
  · decide

theorem takeWhile_append_quote (text rest : List Char) :
    (text ++ '"' :: rest).takeWhile (· ≠ '"') = text.takeWhile (· ≠ '"') := by
  induction text with
  | nil => simp
  | cons c text ih =>
    rw [List.cons_append, List.takeWhile_cons, List.takeWhile_cons, ih]

/-- A text in quotes is read up to the first quote in it. -/
theorem readQuoted_quote (text rest : List Char) :
    readQuoted (quote text ++ rest) = some ((escape text).takeWhile (· ≠ '"')) := by
  rw [quote, List.append_assoc, List.singleton_append, List.cons_append, readQuoted,
    takeWhile_append_quote, if_pos (by simp)]

theorem reads_readQuoted : Reads readQuoted := by
  intro j rest _
  cases j with
  | string text =>
    have h := readQuoted_quote text []
    rw [List.append_nil] at h
    rw [render, readQuoted_quote, h]
  | number n =>
    obtain ⟨c, digits, hdigits, hc⟩ := Chars.exists_decimal n
    have hne : c ≠ '"' := by
      rintro rfl
      exact absurd hc (by decide)
    rw [render, hdigits, List.cons_append, readQuoted.eq_2 _ fun _ h => hne (List.cons.inj h).1,
      readQuoted.eq_2 _ fun _ h => hne (List.cons.inj h).1]
  | null => simp [render, Chars.of, readQuoted]
  | bool b => cases b <;> simp [render, Chars.of, readQuoted]
  | array items => simp [render, readQuoted]
  | object members => simp [render, readQuoted]

theorem takeWhile_decimal {rest : List Char} (hrest : Ends rest) (n : ℕ) :
    (Chars.decimal n ++ rest).takeWhile Char.isDigit = Chars.decimal n := by
  rw [List.takeWhile_append_of_pos fun c hc => Chars.isDigit_of_mem_decimal hc]
  cases rest with
  | nil => simp
  | cons c rest =>
    have hc : ¬c.isDigit := by
      rcases hrest c rfl with rfl | rfl | rfl <;> decide
    rw [List.takeWhile_cons_of_neg hc, List.append_nil]

theorem readLong_number {rest : List Char} (hrest : Ends rest) (n : ℕ) :
    readLong ((number n).render ++ rest) = some (Chars.decimal n) := by
  obtain ⟨c, digits, hdigits, hc⟩ := Chars.exists_decimal n
  have hn : ¬(Chars.of "null").isPrefixOf (Chars.decimal n ++ rest) := by
    rw [hdigits]
    unfold Chars.of
    rintro h
    obtain ⟨rfl, -⟩ := List.cons_prefix_cons.1 (List.isPrefixOf_iff_prefix.1 h)
    exact absurd hc (by decide)
  have hminus : (Chars.decimal n ++ rest).head? ≠ some '-' := by
    rw [hdigits]
    rintro h
    rw [Option.some.inj h] at hc
    exact absurd hc (by decide)
  have hne : Chars.decimal n ≠ [] := hdigits ▸ List.cons_ne_nil c digits
  rw [render, readLong, if_neg hn, if_neg hminus]
  dsimp only
  rw [takeWhile_decimal hrest, if_neg hne, List.nil_append]

theorem reads_readLong : Reads readLong := by
  intro j rest hrest
  cases j with
  | number n =>
    have h := @readLong_number [] (fun c hc => by cases hc) n
    rw [List.append_nil] at h
    rw [readLong_number hrest, h]
  | null => simp [render, Chars.of, readLong]
  | bool b => cases b <;> simp [render, Chars.of, readLong]
  | string text => simp [render, Chars.of, readLong, quote]
  | array items => simp [render, Chars.of, readLong]
  | object members => simp [render, Chars.of, readLong]

theorem hasPlainNames_toJson (status : NativeSyncStatus) : status.toJson.HasPlainNames := by
  simp (disch := decide) [NativeSyncStatus.toJson, HeaderPeerFailure.toJson, plain_of]

/-- A number of the status, as a `Long`. -/
def longOf (n : ℕ) : Option ℤ := if n < 2 ^ 63 then some (n : ℤ) else none

theorem decimal_ne_null (n : ℕ) : Chars.decimal n ≠ Chars.of "null" := by
  intro h
  have hmem : 'n' ∈ Chars.decimal n := by
    rw [h]
    unfold Chars.of
    decide
  have hdigit := Chars.isDigit_of_mem_decimal hmem
  exact absurd hdigit (by decide)

theorem longField_eq {name : List Char} (hname : Plain name) {j : Json} (hplain : j.HasPlainNames) :
    longField j.render name = (j.fields.findSome? (found name readLong)).bind fun value =>
      if value = Chars.of "null" then none else toLongOrNull value := by
  rw [longField, findField_render skips_isRegexSpace hname reads_readLong hplain]
  rfl

@[simp] theorem found_number (n : ℕ) : readLong (number n).render = some (Chars.decimal n) := by
  have h := @readLong_number [] (fun c hc => by cases hc) n
  rwa [List.append_nil] at h

@[simp] theorem found_optional (value : Option ℕ) : readLong (orNull number value).render =
    some (value.elim (Chars.of "null") Chars.decimal) := by
  cases value with
  | none => simp [orNull, readLong, render]
  | some n => exact found_number n

/-- A number in decimal is not `null`. -/
theorem long_decimal (n : ℕ) : (if Chars.decimal n = Chars.of "null" then none
    else toLongOrNull (Chars.decimal n)) = longOf n := by
  rw [if_neg (decimal_ne_null n), toLongOrNull, toSignedOrNull_decimal, longOf]

theorem long_optional (value : Option ℕ) :
    (if value.elim (Chars.of "null") Chars.decimal = Chars.of "null" then none
      else toLongOrNull (value.elim (Chars.of "null") Chars.decimal)) = value.bind longOf := by
  cases value with
  | none => simp
  | some n => exact long_decimal n

theorem text_plain (status : SyncStatus) : Plain status.text := by
  cases status <;> exact plain_of (by decide)

theorem takeWhile_of_plain {text : List Char} (h : Plain text) :
    (escape text).takeWhile (· ≠ '"') = text := by
  rw [escape_of_plain h, List.takeWhile_eq_self_iff]
  intro c hc
  have hne : c ≠ '"' := fun heq => quote_not_mem_of_plain h (heq ▸ hc)
  simpa using hne

/-- What there is to read of a status. -/
def NativeSyncStatus.progress (status : NativeSyncStatus) : HnsSyncProgress where
  status := status.status.text
  bestHeight := status.bestHeight.bind longOf
  bestPeerHeight := status.bestPeerHeight.bind longOf
  attempted := longOf status.attempted
  successful := longOf status.successful
  accepted := longOf status.accepted
  failed := longOf status.failed
  peerCount := longOf status.peerCount
  peerGroups := longOf status.peerGroups
  estimatedTipHeight := status.estimatedTipHeight.bind longOf

theorem fromJson_render (status : NativeSyncStatus) :
    HnsSyncProgress.fromJson status.toJson.render = status.progress := by
  have hplain := hasPlainNames_toJson status
  have hstatus : stringField status.toJson.render (Chars.of "status") =
      some status.status.text := by
    have hread : readQuoted (string status.status.text).render = some status.status.text := by
      have h := readQuoted_quote status.status.text []
      rwa [List.append_nil, takeWhile_of_plain (text_plain status.status)] at h
    rw [stringField, findField_render skips_isRegexSpace (plain_of (by decide)) reads_readQuoted
      hplain, NativeSyncStatus.toJson, fields, membersFields, List.findSome?_cons, found,
      if_pos rfl, hread]
  have hheight (value : Option ℕ) : (orNull number value).fields = [] :=
    fields_orNull (fun _ => rfl) value
  rw [HnsSyncProgress.fromJson, hstatus, NativeSyncStatus.progress]
  congr 1 <;> rw [longField_eq (plain_of (by decide)) hplain] <;>
    simp [NativeSyncStatus.toJson, fields, membersFields, found, Chars.of_inj, long_decimal,
      long_optional, hheight]

/-- The app reads the status, the counts and the heights that the round has reported, and nothing
    else that a text in it looks like. -/
theorem fromJson_toJson (status : NativeSyncStatus) :
    HnsSyncProgress.fromJson status.toJson.render = {
      status := status.status.text
      bestHeight := status.bestHeight.bind longOf
      bestPeerHeight := status.bestPeerHeight.bind longOf
      attempted := longOf status.attempted
      successful := longOf status.successful
      accepted := longOf status.accepted
      failed := longOf status.failed
      peerCount := longOf status.peerCount
      peerGroups := longOf status.peerGroups
      estimatedTipHeight := status.estimatedTipHeight.bind longOf } :=
  fromJson_render status

/-! ## When the status asks for the next round -/

/-- The numbers of the status that decide when the next round follows are `Long`s. -/
structure NativeSyncStatus.Fits (status : NativeSyncStatus) : Prop where
  peerCount : status.peerCount < 2 ^ 63
  accepted : status.accepted < 2 ^ 63
  bestHeight : ∀ height ∈ status.bestHeight, height < 2 ^ 63
  bestPeerHeight : ∀ height ∈ status.bestPeerHeight, height < 2 ^ 63

section Rounds

variable {S P : Type} [HeaderStore S] [Digests] [HeaderPeerClient P]

end Rounds

section

open Sample ProvingSample SyncOnceSample

end

end Hns
