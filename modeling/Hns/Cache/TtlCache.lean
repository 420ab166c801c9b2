import Hns.Lib.HashMap

/-!
# The cache of answers

The `TtlCache` of `hns-cache`: a map of entries that expire, and a queue of its keys, the one that
has not been used for longest first. Every operation keeps the two in step (`Ordered`).
-/

namespace Hns

/-- A reading of the clock, counted from some start. -/
abbrev Instant := ℕ

abbrev Duration := ℕ

/-- The last instant that there is a value for. -/
class Clock where
  last : Instant

/-- `Instant + Duration`, which panics when there is no value for it. -/
def Instant.add [Clock] (instant : Instant) (duration : Duration) : Option Instant :=
  if instant + duration ≤ Clock.last then some (instant + duration) else none

structure CacheEntry (V : Type) where
  value : V
  expiresAt : Instant

structure TtlCache (K V : Type) where
  maxEntries : ℕ
  entries : HashMap K (CacheEntry V)
  order : List K

namespace TtlCache

variable {K V : Type} [DecidableEq K]

def new (maxEntries : ℕ) : TtlCache K V := ⟨maxEntries, .empty, []⟩

def pruneExpired (cache : TtlCache K V) (now : Instant) : TtlCache K V :=
  let entries := cache.entries.retain fun _ entry => now < entry.expiresAt
  ⟨cache.maxEntries, entries, cache.order.filter fun key => (entries.get? key).isSome⟩

/-- The loop of `evict_over_limit`. -/
def evictLoop (maxEntries : ℕ) :
    List K → HashMap K (CacheEntry V) → HashMap K (CacheEntry V) × List K
  | [], entries => (entries, [])
  | key :: order, entries =>
    if maxEntries < entries.len then evictLoop maxEntries order (entries.remove key)
    else (entries, key :: order)

def evictOverLimit (cache : TtlCache K V) : TtlCache K V :=
  let (entries, order) := evictLoop cache.maxEntries cache.order cache.entries
  ⟨cache.maxEntries, entries, order⟩

def promote (cache : TtlCache K V) (key : K) : TtlCache K V :=
  { cache with order := cache.order.filter fun candidate => candidate ≠ key }

/-- A key becomes the one that has been used last. -/
def pushBack (cache : TtlCache K V) (key : K) : TtlCache K V :=
  { cache with order := cache.order ++ [key] }

/-- The clock is read once by `prune_expired`, and then once more. -/
def insert [Clock] (cache : TtlCache K V) (key : K) (value : V) (ttl : Duration)
    (pruned now : Instant) : Option (TtlCache K V) := do
  let cache := cache.pruneExpired pruned
  let expiresAt ← now.add ttl
  let cache := (cache.promote key).pushBack key
  let cache := { cache with entries := cache.entries.insert key ⟨value, expiresAt⟩ }
  return cache.evictOverLimit

def get (cache : TtlCache K V) (key : K) (now : Instant) : Option V × TtlCache K V :=
  let cache := cache.pruneExpired now
  match cache.entries.get? key with
  | none => (none, cache)
  | some entry => (some entry.value, (cache.promote key).pushBack key)

def len (cache : TtlCache K V) (now : Instant) : ℕ × TtlCache K V :=
  let cache := cache.pruneExpired now
  (cache.entries.len, cache)

def clear (cache : TtlCache K V) : TtlCache K V := ⟨cache.maxEntries, .empty, []⟩

/-! ## The queue and the map -/

/-- The queue has the keys of the map, each of them once. -/
structure Ordered (cache : TtlCache K V) : Prop where
  nodup : cache.order.Nodup
  mem_iff : ∀ key, key ∈ cache.order ↔ (cache.entries.get? key).isSome

variable {cache : TtlCache K V}

theorem Ordered.perm (h : cache.Ordered) : cache.order.Perm cache.entries.keys :=
  HashMap.keys_perm h.nodup h.mem_iff

theorem Ordered.length_order (h : cache.Ordered) : cache.order.length = cache.entries.len := by
  rw [h.perm.length_eq, HashMap.length_keys]

theorem ordered_new (maxEntries : ℕ) : (new maxEntries : TtlCache K V).Ordered :=
  ⟨List.nodup_nil, fun _ => iff_of_false List.not_mem_nil (by simp [new])⟩

theorem get?_pruneExpired (now : Instant) (key : K) :
    (cache.pruneExpired now).entries.get? key =
      (cache.entries.get? key).filter fun entry => now < entry.expiresAt :=
  HashMap.get?_retain _ _

theorem Ordered.pruneExpired (h : cache.Ordered) (now : Instant) :
    (cache.pruneExpired now).Ordered := by
  refine ⟨h.nodup.filter _, fun key => ?_⟩
  change key ∈ cache.order.filter _ ↔ _
  rw [List.mem_filter, h.mem_iff]
  refine and_iff_right_iff_imp.2 fun hsome => ?_
  have hget : (cache.pruneExpired now).entries.get? key = _ := get?_pruneExpired now key
  change ((cache.pruneExpired now).entries.get? key).isSome at hsome
  rw [hget] at hsome
  cases hentry : cache.entries.get? key with
  | none =>
    rw [hentry] at hsome
    cases hsome
  | some entry => rfl

/-- A key that is put into the map comes last. -/
theorem Ordered.put (h : cache.Ordered) (key : K) (entry : CacheEntry V) :
    Ordered { (cache.promote key).pushBack key with
      entries := cache.entries.insert key entry } := by
  constructor
  · change (cache.order.filter _ ++ [key]).Nodup
    rw [List.nodup_append]
    refine ⟨h.nodup.filter _, List.nodup_singleton _, fun a ha b hb => ?_⟩
    rw [List.mem_singleton.1 hb]
    exact of_decide_eq_true (List.mem_filter.1 ha).2
  · intro key'
    change key' ∈ cache.order.filter _ ++ [key] ↔ ((cache.entries.insert key entry).get? key').isSome
    rw [List.mem_append, List.mem_filter, List.mem_singleton, HashMap.get?_insert, h.mem_iff,
      decide_eq_true_iff]
    split_ifs with heq
    · exact iff_of_true (.inr heq) rfl
    · simp [heq]

/-- A key that is used comes last. -/
theorem Ordered.use (h : cache.Ordered) {key : K} {entry : CacheEntry V}
    (hget : cache.entries.get? key = some entry) : ((cache.promote key).pushBack key).Ordered := by
  have hput := h.put key entry
  refine ⟨hput.nodup, fun key' => (hput.mem_iff key').trans ?_⟩
  change ((cache.entries.insert key entry).get? key').isSome ↔ (cache.entries.get? key').isSome
  rw [HashMap.get?_insert]
  split_ifs with heq
  · simp [heq, hget]
  · exact Iff.rfl

/-- The keys in front are evicted, as many as there are too many. -/
theorem evictLoop_spec (maxEntries : ℕ) {order : List K} {entries : HashMap K (CacheEntry V)}
    (h : Ordered ⟨maxEntries, entries, order⟩) :
    (evictLoop maxEntries order entries).2 = order.drop (order.length - maxEntries) ∧
      ∀ key, (evictLoop maxEntries order entries).1.get? key =
        if key ∈ order.take (order.length - maxEntries) then none else entries.get? key := by
  induction order generalizing entries with
  | nil => simp [evictLoop]
  | cons first order ih =>
    have hlength : (first :: order).length = entries.len := h.length_order
    rw [evictLoop]
    split_ifs with hlt
    · have hnodup : (first :: order).Nodup := h.nodup
      rw [List.nodup_cons] at hnodup
      have hrest : Ordered ⟨maxEntries, entries.remove first, order⟩ := by
        refine ⟨hnodup.2, fun key => ?_⟩
        have hmem : key ∈ first :: order ↔ (entries.get? key).isSome := h.mem_iff key
        change key ∈ order ↔ ((entries.remove first).get? key).isSome
        rw [HashMap.get?_remove]
        split_ifs with heq
        · exact iff_of_false (heq ▸ hnodup.1) (by simp)
        · rw [← hmem, List.mem_cons, or_iff_right heq]
      obtain ⟨horder, hentries⟩ := ih hrest
      have hcount : (first :: order).length - maxEntries = order.length - maxEntries + 1 := by
        rw [← hlength, List.length_cons] at hlt
        rw [List.length_cons]
        omega
      rw [horder, hcount, List.drop_succ_cons]
      refine ⟨rfl, fun key => ?_⟩
      rw [hentries key, List.take_succ_cons, HashMap.get?_remove]
      by_cases heq : key = first
      · simp [heq]
      · simp [heq]
    · have hcount : (first :: order).length - maxEntries = 0 := by omega
      rw [hcount]
      exact ⟨rfl, fun key => by simp⟩

theorem Ordered.evictOverLimit (h : cache.Ordered) : cache.evictOverLimit.Ordered ∧
    cache.evictOverLimit.order = cache.order.drop (cache.order.length - cache.maxEntries) ∧
      ∀ key, cache.evictOverLimit.entries.get? key =
        if key ∈ cache.order.take (cache.order.length - cache.maxEntries) then none
        else cache.entries.get? key := by
  obtain ⟨horder, hentries⟩ := evictLoop_spec cache.maxEntries h
  refine ⟨⟨?_, fun key => ?_⟩, horder, hentries⟩
  · change (evictLoop cache.maxEntries cache.order cache.entries).2.Nodup
    rw [horder]
    exact h.nodup.sublist (List.drop_sublist _ _)
  · change key ∈ (evictLoop cache.maxEntries cache.order cache.entries).2 ↔
      ((evictLoop cache.maxEntries cache.order cache.entries).1.get? key).isSome
    have hnodup := h.nodup
    rw [← List.take_append_drop (cache.order.length - cache.maxEntries) cache.order,
      List.nodup_append] at hnodup
    rw [horder, hentries]
    have hmem := h.mem_iff key
    rw [← List.take_append_drop (cache.order.length - cache.maxEntries) cache.order,
      List.mem_append] at hmem
    split_ifs with hevicted
    · exact iff_of_false (fun hkept => hnodup.2.2 key hevicted key hkept rfl) (by simp)
    · rw [← hmem, or_iff_right hevicted]

end TtlCache

end Hns
