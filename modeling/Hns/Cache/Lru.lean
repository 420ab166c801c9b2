import Mathlib.Data.List.Induction
import Hns.Cache.TtlCache

/-!
# The least recently used entries

What the `TtlCache` is for, told by its history: it answers with the latest entry that has been
inserted for a key, as long as that has not expired and the key has not been evicted (`latest`),
and it evicts what has not been used for longest (`MoreRecent`). In front of those that are kept
are as many others as the cache holds (`refines_lru`).
-/

namespace Hns

/-! ## Histories -/

/-- An operation, with the readings of the clock. -/
inductive CacheOp (K V : Type)
  | insert (key : K) (value : V) (ttl : Duration) (pruned now : Instant)
  | get (key : K) (now : Instant)
  | len (now : Instant)
  | clear

/-- The readings of the clock. -/
def CacheOp.readings {K V : Type} : CacheOp K V → List Instant
  | .insert _ _ _ pruned now => [pruned, now]
  | .get _ now => [now]
  | .len now => [now]
  | .clear => []

/-- What has happened: an entry has been inserted, and keys have been evicted by that; a key has
    been asked for; or something else. -/
inductive CacheEvent (K V : Type)
  | insert (key : K) (entry : CacheEntry V) (evicted : List K)
  | get (key : K) (found : Option V)
  | len (count : ℕ)
  | clear

variable {K V : Type} [DecidableEq K]

/-- The latest entry that has been inserted for the key, unless the key has been evicted since, or
    the cache been cleared. -/
def latest (events : List (CacheEvent K V)) (key : K) : Option (CacheEntry V) :=
  events.foldl (fun found event =>
    match event with
    | .insert key' entry evicted =>
      if key ∈ evicted then none else if key = key' then some entry else found
    | .clear => none
    | .get .. => found
    | .len _ => found) none

/-- The keys that have been inserted or found, in the order of time. -/
def uses (events : List (CacheEvent K V)) : List K :=
  events.filterMap fun event =>
    match event with
    | .insert key _ _ => some key
    | .get key found => if found.isSome then some key else none
    | .len _ => none
    | .clear => none

/-- The other key has been used behind the last use of the key. -/
def MoreRecent (uses : List K) (key other : K) : Prop :=
  ∃ before after, uses = before ++ key :: after ∧ key ∉ after ∧ other ∈ after

/-- The key has an entry that has not expired. -/
def Live (events : List (CacheEvent K V)) (now : Instant) (key : K) : Prop :=
  ∃ entry, latest events key = some entry ∧ now < entry.expiresAt

namespace TtlCache

/-- The keys that are held before, or inserted, and not held after. -/
def evicted (before after : TtlCache K V) (key : K) : List K :=
  (key :: before.entries.keys).filter fun k => (after.entries.get? k).isNone

/-- An operation, and what happens. -/
def apply [Clock] (cache : TtlCache K V) : CacheOp K V → Option (TtlCache K V × CacheEvent K V)
  | .insert key value ttl pruned now =>
    (cache.insert key value ttl pruned now).map fun after =>
      (after, .insert key ⟨value, now + ttl⟩ ((cache.pruneExpired pruned).evicted after key))
  | .get key now => some ((cache.get key now).2, .get key (cache.get key now).1)
  | .len now => some ((cache.len now).2, .len (cache.len now).1)
  | .clear => some (cache.clear, .clear)

def step [Clock] (s : TtlCache K V × List (CacheEvent K V)) (op : CacheOp K V) :
    Option (TtlCache K V × List (CacheEvent K V)) :=
  (s.1.apply op).map fun result => (result.1, s.2 ++ [result.2])

/-- Some operations on a new cache, if none of them panics. -/
def run [Clock] (maxEntries : ℕ) (ops : List (CacheOp K V)) :
    Option (TtlCache K V × List (CacheEvent K V)) :=
  ops.foldlM step (new maxEntries, [])

end TtlCache

/-! ## The order of use -/

theorem latest_concat (events : List (CacheEvent K V)) (event : CacheEvent K V) (key : K) :
    latest (events ++ [event]) key =
      match event with
      | .insert key' entry evicted =>
        if key ∈ evicted then none else if key = key' then some entry else latest events key
      | .clear => none
      | .get .. => latest events key
      | .len _ => latest events key := by
  rw [latest, List.foldl_append, ← latest]
  rfl

omit [DecidableEq K] in
theorem uses_concat (events : List (CacheEvent K V)) (event : CacheEvent K V) :
    uses (events ++ [event]) = uses events ++ uses [event] :=
  List.filterMap_append

omit [DecidableEq K] in
/-- Another use does not change the order of the others. -/
theorem MoreRecent.concat {uses : List K} {key other : K} (h : MoreRecent uses key other) {used : K}
    (hne : key ≠ used) : MoreRecent (uses ++ [used]) key other := by
  obtain ⟨before, after, rfl, hkey, hother⟩ := h
  refine ⟨before, after ++ [used], by simp, ?_, List.mem_append_left _ hother⟩
  rw [List.mem_append, List.mem_singleton, not_or]
  exact ⟨hkey, hne⟩

omit [DecidableEq K] in
/-- What is used now has been used behind everything else. -/
theorem moreRecent_concat {uses : List K} {key used : K} (hmem : key ∈ uses) (hne : key ≠ used) :
    MoreRecent (uses ++ [used]) key used := by
  obtain ⟨after, before, heq, hkey⟩ := List.eq_append_cons_of_mem (List.mem_reverse.2 hmem)
  refine ⟨before.reverse, after.reverse ++ [used], ?_, ?_, List.mem_append_right _ List.mem_cons_self⟩
  · rw [← List.reverse_reverse uses, heq]
    simp
  · rw [List.mem_append, List.mem_reverse, List.mem_singleton, not_or]
    exact ⟨hkey, hne⟩

namespace TtlCache

/-- The queue is in the order of use. -/
def InOrderOfUse (uses order : List K) : Prop :=
  order.Pairwise (MoreRecent uses) ∧ ∀ key ∈ order, key ∈ uses

omit [DecidableEq K] in
theorem InOrderOfUse.sublist {uses order order' : List K} (h : InOrderOfUse uses order)
    (hsub : order'.Sublist order) : InOrderOfUse uses order' :=
  ⟨h.1.sublist hsub, fun key hkey => h.2 key (hsub.subset hkey)⟩

/-- A key that is used is moved to the end. -/
theorem InOrderOfUse.use {uses order : List K} (h : InOrderOfUse uses order) (key : K) :
    InOrderOfUse (uses ++ [key]) ((order.filter fun candidate => candidate ≠ key) ++ [key]) := by
  have hother : ∀ other ∈ order.filter fun candidate => candidate ≠ key, other ∈ uses ∧ other ≠ key :=
    fun other hmem => ⟨h.2 other (List.mem_filter.1 hmem).1, of_decide_eq_true (List.mem_filter.1 hmem).2⟩
  constructor
  · refine List.pairwise_append.2 ⟨?_, List.pairwise_singleton _ _, fun other hmem used hused => ?_⟩
    · refine (h.1.sublist List.filter_sublist).imp_of_mem fun hmem _ hmore => ?_
      exact hmore.concat (hother _ hmem).2
    · rw [List.mem_singleton.1 hused]
      exact moreRecent_concat (hother other hmem).1 (hother other hmem).2
  · rw [List.forall_mem_append, List.forall_mem_singleton]
    exact ⟨fun other hmem => List.mem_append_left _ (hother other hmem).1,
      List.mem_append_right _ List.mem_cons_self⟩

/-! ## Steps -/

/-- What is known of a cache from its history, at any time from `now` on. -/
structure Follows (maxEntries : ℕ) (cache : TtlCache K V) (events : List (CacheEvent K V))
    (now : Instant) : Prop where
  limit : cache.maxEntries = maxEntries
  ordered : cache.Ordered
  bounded : cache.entries.len ≤ maxEntries
  inOrderOfUse : InOrderOfUse (uses events) cache.order
  held : ∀ key, ∀ t ≥ now, (cache.entries.get? key).filter (fun entry => t < entry.expiresAt) =
    (latest events key).filter fun entry => t < entry.expiresAt

theorem follows_new (maxEntries : ℕ) (now : Instant) :
    Follows maxEntries (new maxEntries : TtlCache K V) [] now where
  limit := rfl
  ordered := ordered_new maxEntries
  bounded := Nat.zero_le _
  inOrderOfUse := ⟨.nil, fun _ h => absurd h List.not_mem_nil⟩
  held _ _ _ := rfl

variable {maxEntries : ℕ} {cache : TtlCache K V} {events : List (CacheEvent K V)}
  {now now' : Instant}

theorem filter_filter_expiresAt {t now : Instant} (hle : now ≤ t) (found : Option (CacheEntry V)) :
    (found.filter fun entry => now < entry.expiresAt).filter (fun entry => t < entry.expiresAt) =
      found.filter fun entry => t < entry.expiresAt := by
  ext entry
  simp only [Option.filter_eq_some_iff, decide_eq_true_iff]
  constructor
  · exact fun h => ⟨h.1.1, h.2⟩
  · exact fun h => ⟨⟨h.1, Nat.lt_of_le_of_lt hle h.2⟩, h.2⟩

/-- What has expired is removed, and no use of it is lost. -/
theorem Follows.pruneExpired (h : Follows maxEntries cache events now) (hle : now ≤ now') :
    Follows maxEntries (cache.pruneExpired now') events now' where
  limit := h.limit
  ordered := h.ordered.pruneExpired now'
  bounded := Nat.le_trans (List.length_filter_le _ _) h.bounded
  inOrderOfUse := h.inOrderOfUse.sublist List.filter_sublist
  held key t ht := by
    rw [get?_pruneExpired, filter_filter_expiresAt ht, h.held key t (Nat.le_trans hle ht)]

/-- Time passes. -/
theorem Follows.mono (h : Follows maxEntries cache events now) (hle : now ≤ now') :
    Follows maxEntries cache events now' :=
  { h with held := fun key t ht => h.held key t (Nat.le_trans hle ht) }

/-- What is held behind `prune_expired` has not expired, and is the latest entry. -/
theorem Follows.get?_pruneExpired (h : Follows maxEntries cache events now) (hle : now ≤ now')
    (key : K) : (cache.pruneExpired now').entries.get? key =
      (latest events key).filter fun entry => now' < entry.expiresAt := by
  rw [TtlCache.get?_pruneExpired, h.held key now' hle]

/-- What is in the queue behind `prune_expired` is live. -/
theorem Follows.live (h : Follows maxEntries cache events now) (hle : now ≤ now') {key : K}
    (hmem : key ∈ (cache.pruneExpired now').order) : Live events now' key := by
  rw [(h.ordered.pruneExpired now').mem_iff, h.get?_pruneExpired hle,
    Option.isSome_iff_exists] at hmem
  obtain ⟨entry, hentry⟩ := hmem
  rw [Option.filter_eq_some_iff, decide_eq_true_iff] at hentry
  exact ⟨entry, hentry⟩

theorem Follows.get (h : Follows maxEntries cache events now) (hle : now ≤ now') (key : K) :
    (cache.get key now').1 = ((latest events key).filter fun entry =>
        now' < entry.expiresAt).map CacheEntry.value ∧
      Follows maxEntries (cache.get key now').2
        (events ++ [.get key (cache.get key now').1]) now' := by
  have hpruned := h.pruneExpired hle
  have hget := h.get?_pruneExpired hle key
  rw [TtlCache.get, ← hget]
  cases hentry : (cache.pruneExpired now').entries.get? key with
  | none =>
    refine ⟨rfl, hpruned.limit, hpruned.ordered, hpruned.bounded, ?_, fun key' t ht => ?_⟩
    · rw [uses_concat]
      exact (List.append_nil _).symm ▸ hpruned.inOrderOfUse
    · rw [latest_concat]
      exact hpruned.held key' t ht
  | some entry =>
    refine ⟨rfl, hpruned.limit, hpruned.ordered.use hentry, hpruned.bounded, ?_, fun key' t ht => ?_⟩
    · rw [uses_concat]
      exact hpruned.inOrderOfUse.use key
    · rw [latest_concat]
      exact hpruned.held key' t ht

theorem Follows.len (h : Follows maxEntries cache events now) (hle : now ≤ now') (count : ℕ) :
    Follows maxEntries (cache.len now').2 (events ++ [.len count]) now' := by
  obtain ⟨hlimit, hordered, hbounded, huse, hheld⟩ := h.pruneExpired hle
  refine ⟨hlimit, hordered, hbounded, ?_, fun key t ht => ?_⟩
  · rw [uses_concat]
    exact (List.append_nil _).symm ▸ huse
  · rw [latest_concat]
    exact hheld key t ht

theorem Follows.clear (h : Follows maxEntries cache events now) :
    Follows maxEntries cache.clear (events ++ [.clear]) now where
  limit := h.limit
  ordered := ⟨List.nodup_nil, fun _ => iff_of_false List.not_mem_nil (by simp [TtlCache.clear])⟩
  bounded := Nat.zero_le _
  inOrderOfUse := ⟨.nil, fun _ hmem => absurd hmem List.not_mem_nil⟩
  held key t _ := by
    rw [latest_concat]
    rfl

/-! ## Insertions -/

/-- What `insert` puts into a cache, before it evicts. -/
def put (cache : TtlCache K V) (key : K) (entry : CacheEntry V) : TtlCache K V :=
  { (cache.promote key).pushBack key with entries := cache.entries.insert key entry }

theorem insert_eq_some_iff [Clock] {key : K} {value : V} {ttl : Duration} {pruned now : Instant}
    {after : TtlCache K V} : cache.insert key value ttl pruned now = some after ↔
      now + ttl ≤ Clock.last ∧
        after = ((cache.pruneExpired pruned).put key ⟨value, now + ttl⟩).evictOverLimit := by
  rw [insert, Instant.add]
  split_ifs with hle
  · exact ⟨fun h => ⟨hle, (Option.some.inj h).symm⟩, fun h => congrArg some h.2.symm⟩
  · exact ⟨nofun, fun h => absurd h.1 hle⟩

/-- How many keys there are too many behind `put`. -/
def excess (cache : TtlCache K V) : ℕ := cache.order.length - cache.maxEntries

/-- The keys that are evicted are those in front. -/
theorem Ordered.mem_evicted_iff (h : cache.Ordered) (key : K) (entry : CacheEntry V) (k : K) :
    k ∈ cache.evicted (cache.put key entry).evictOverLimit key ↔
      k ∈ (cache.put key entry).order.take (cache.put key entry).excess := by
  have hput : (cache.put key entry).Ordered := h.put key entry
  obtain ⟨hafter, horder, -⟩ := hput.evictOverLimit
  have hkeys : k ∈ key :: cache.entries.keys ↔ k ∈ (cache.put key entry).order := by
    change _ ↔ k ∈ cache.order.filter _ ++ [key]
    rw [List.mem_cons, List.mem_append, List.mem_filter, List.mem_singleton, decide_eq_true_iff,
      ← h.perm.mem_iff]
    by_cases heq : k = key
    · simp [heq]
    · simp [heq]
  have hnodup := hput.nodup
  rw [← List.take_append_drop (cache.put key entry).excess (cache.put key entry).order,
    List.nodup_append] at hnodup
  rw [evicted, List.mem_filter, hkeys, ← Option.not_isSome, Bool.not_eq_true', ← Bool.not_eq_true,
    ← hafter.mem_iff, horder]
  constructor
  · rintro ⟨hmem, hnot⟩
    rw [← List.take_append_drop (cache.put key entry).excess (cache.put key entry).order,
      List.mem_append] at hmem
    exact hmem.resolve_right hnot
  · exact fun hmem => ⟨List.mem_of_mem_take hmem, fun hkept => hnodup.2.2 k hmem k hkept rfl⟩

theorem Follows.insert [Clock] (h : Follows maxEntries cache events now) {pruned : Instant}
    (hpruned : now ≤ pruned) (hle : pruned ≤ now') {key : K} {value : V} {ttl : Duration}
    {after : TtlCache K V} (hinsert : cache.insert key value ttl pruned now' = some after) :
    Follows maxEntries after (events ++
      [.insert key ⟨value, now' + ttl⟩ ((cache.pruneExpired pruned).evicted after key)]) now' := by
  have hfollows := h.pruneExpired hpruned
  obtain ⟨-, rfl⟩ := insert_eq_some_iff.1 hinsert
  have hevicted := hfollows.ordered.mem_evicted_iff key ⟨value, now' + ttl⟩
  generalize hput : (cache.pruneExpired pruned).put key ⟨value, now' + ttl⟩ = cache' at hevicted ⊢
  have hordered : cache'.Ordered := hput ▸ hfollows.ordered.put key _
  have hlimit : cache'.maxEntries = maxEntries := by
    rw [← hput]
    exact hfollows.limit
  obtain ⟨hafter, horder, hentries⟩ := hordered.evictOverLimit
  refine ⟨hlimit, hafter, ?_, ?_, fun key' t ht => ?_⟩
  · rw [← hafter.length_order, horder, List.length_drop, hlimit]
    have hlength : cache'.order.length ≤ maxEntries + 1 := by
      rw [← hput]
      change ((cache.pruneExpired pruned).order.filter _ ++ [key]).length ≤ maxEntries + 1
      rw [List.length_append, List.length_singleton]
      refine Nat.succ_le_succ (Nat.le_trans (List.length_filter_le _ _) ?_)
      rw [hfollows.ordered.length_order]
      exact hfollows.bounded
    omega
  · rw [horder, uses_concat]
    refine InOrderOfUse.sublist ?_ (List.drop_sublist _ _)
    rw [← hput]
    exact hfollows.inOrderOfUse.use key
  · rw [latest_concat, hentries key']
    dsimp only
    rw [if_congr (hevicted key') rfl rfl]
    change (if key' ∈ cache'.order.take cache'.excess then none else _).filter _ = _
    split_ifs with hmem heq
    · rfl
    · rw [← hput, heq]
      change (((cache.pruneExpired pruned).entries.insert key _).get? key).filter _ = _
      rw [HashMap.get?_insert, if_pos rfl]
    · rw [← hput]
      change (((cache.pruneExpired pruned).entries.insert key _).get? key').filter _ = _
      rw [HashMap.get?_insert, if_neg heq, hfollows.held key' t (Nat.le_trans hle ht)]

/-- When a key is evicted, as many others as the cache holds have been used behind it: the one that
    is inserted, and those that are live. -/
theorem Follows.evicts [Clock] (h : Follows maxEntries cache events now) {pruned : Instant}
    (hpruned : now ≤ pruned) {key : K} {value : V} {ttl : Duration} {after : TtlCache K V}
    (hinsert : cache.insert key value ttl pruned now' = some after) {k : K}
    (hk : k ∈ (cache.pruneExpired pruned).evicted after key) :
    ∃ others : List K, others.Nodup ∧ others.length = maxEntries ∧ ∀ other ∈ others,
      MoreRecent (uses events ++ [key]) k other ∧ (other = key ∨ Live events pruned other) := by
  have hfollows := h.pruneExpired hpruned
  obtain ⟨-, rfl⟩ := insert_eq_some_iff.1 hinsert
  rw [hfollows.ordered.mem_evicted_iff] at hk
  have huse : ((cache.pruneExpired pruned).put key ⟨value, now' + ttl⟩).order.Pairwise
      (MoreRecent (uses events ++ [key])) := (hfollows.inOrderOfUse.use key).1
  have hmem : ∀ other ∈ ((cache.pruneExpired pruned).put key ⟨value, now' + ttl⟩).order,
      other = key ∨ Live events pruned other := by
    intro other hother
    rcases List.mem_append.1 hother with hother | hother
    · exact .inr (h.live hpruned (List.mem_filter.1 hother).1)
    · exact .inl (List.mem_singleton.1 hother)
  have hordered : Ordered ((cache.pruneExpired pruned).put key ⟨value, now' + ttl⟩) :=
    hfollows.ordered.put key _
  have hlimit : ((cache.pruneExpired pruned).put key ⟨value, now' + ttl⟩).maxEntries = maxEntries :=
    hfollows.limit
  generalize (cache.pruneExpired pruned).put key ⟨value, now' + ttl⟩ = cache' at *
  have hexcess : 0 < cache'.excess := by
    refine Nat.pos_of_ne_zero fun hzero => ?_
    rw [hzero, List.take_zero] at hk
    exact List.not_mem_nil hk
  refine ⟨cache'.order.drop cache'.excess, hordered.nodup.sublist (List.drop_sublist _ _), ?_,
    fun other hother => ⟨?_, hmem other (List.mem_of_mem_drop hother)⟩⟩
  · rw [List.length_drop]
    rw [excess] at hexcess ⊢
    omega
  · rw [← List.take_append_drop cache'.excess cache'.order, List.pairwise_append] at huse
    exact huse.2.2 k hk other hother

/-! ## Runs -/

theorem run_concat [Clock] (maxEntries : ℕ) (ops : List (CacheOp K V)) (op : CacheOp K V) :
    run maxEntries (ops ++ [op]) = (run maxEntries ops).bind fun s => step s op := by
  rw [run, List.foldlM_append, ← run]
  simp only [List.foldlM_cons, List.foldlM_nil, bind_pure]
  rfl

theorem step_eq_some_iff [Clock] {s s' : TtlCache K V × List (CacheEvent K V)} {op : CacheOp K V} :
    step s op = some s' ↔ ∃ after event, s.1.apply op = some (after, event) ∧
      s' = (after, s.2 ++ [event]) := by
  rw [step, Option.map_eq_some_iff]
  constructor
  · rintro ⟨⟨after, event⟩, happly, rfl⟩
    exact ⟨after, event, happly, rfl⟩
  · rintro ⟨after, event, happly, rfl⟩
    exact ⟨(after, event), happly, rfl⟩

/-- Every run on a clock that does not go backwards. -/
theorem follows_of_run [Clock] {ops : List (CacheOp K V)}
    (hclock : (ops.flatMap CacheOp.readings).Pairwise (· ≤ ·))
    (hrun : run maxEntries ops = some (cache, events))
    (hnow : ∀ reading ∈ ops.flatMap CacheOp.readings, reading ≤ now) :
    Follows maxEntries cache events now := by
  induction ops using List.reverseRecOn generalizing cache events now with
  | nil =>
    cases hrun
    exact follows_new maxEntries now
  | append_singleton ops op ih =>
    rw [run_concat] at hrun
    obtain ⟨⟨before, history⟩, hbefore, hstep⟩ := Option.bind_eq_some_iff.1 hrun
    obtain ⟨after, event, happly, heq⟩ := step_eq_some_iff.1 hstep
    cases heq
    rw [List.flatMap_append, List.flatMap_singleton] at hclock hnow
    obtain ⟨hops, hop, hlater⟩ := List.pairwise_append.1 hclock
    have hfollows : ∀ t, (∀ reading ∈ ops.flatMap CacheOp.readings, reading ≤ t) →
        Follows maxEntries before history t := fun _ => ih hops hbefore
    -- Behind the operations so far, the clock is at the first reading of this one.
    cases op with
    | insert key value ttl pruned now' =>
      obtain ⟨cache', hinsert, heq⟩ := Option.map_eq_some_iff.1 happly
      cases heq
      have hbefore' := hfollows pruned fun t ht => hlater t ht pruned List.mem_cons_self
      have hle : pruned ≤ now' := (List.pairwise_cons.1 hop).1 now' List.mem_cons_self
      refine (hbefore'.insert (Nat.le_refl _) hle hinsert).mono (hnow now' ?_)
      exact List.mem_append_right _ (List.mem_cons_of_mem _ List.mem_cons_self)
    | get key now' =>
      cases happly
      have hbefore' := hfollows now' fun t ht => hlater t ht now' List.mem_cons_self
      exact (hbefore'.get (Nat.le_refl _) key).2.mono
        (hnow now' (List.mem_append_right _ List.mem_cons_self))
    | len now' =>
      cases happly
      have hbefore' := hfollows now' fun t ht => hlater t ht now' List.mem_cons_self
      exact (hbefore'.len (Nat.le_refl _) _).mono
        (hnow now' (List.mem_append_right _ List.mem_cons_self))
    | clear =>
      cases happly
      exact (hfollows now fun t ht => hnow t (List.mem_append_left _ ht)).clear

/-- The cache is one of the least recently used entries. The queue has the keys of the map, each of
    them once, and at most as many are held as may be. It answers with the latest entry of a key
    that has not expired. What is evicted by an insertion is in front of as many others as may be
    held, each of them live or the one that is inserted. -/
theorem refines_lru [Clock] {maxEntries : ℕ} {ops : List (CacheOp K V)} {cache : TtlCache K V}
    {events : List (CacheEvent K V)} {now : Instant}
    (hclock : (ops.flatMap CacheOp.readings).Pairwise (· ≤ ·))
    (hrun : run maxEntries ops = some (cache, events))
    (hnow : ∀ reading ∈ ops.flatMap CacheOp.readings, reading ≤ now) :
    cache.order.Nodup ∧ cache.order.Perm cache.entries.keys ∧
      cache.entries.len ≤ maxEntries ∧
      (∀ key, (cache.get key now).1 = ((latest events key).filter fun entry =>
        now < entry.expiresAt).map CacheEntry.value) ∧
      ∀ key value ttl now' after, cache.insert key value ttl now now' = some after →
        ∀ k ∈ (cache.pruneExpired now).evicted after key,
          ∃ others : List K, others.Nodup ∧ others.length = maxEntries ∧ ∀ other ∈ others,
            MoreRecent (uses events ++ [key]) k other ∧
              (other = key ∨ Live events now other) := by
  have hfollows := follows_of_run hclock hrun hnow
  refine ⟨hfollows.ordered.nodup, hfollows.ordered.perm, hfollows.bounded,
    fun key => (hfollows.get (Nat.le_refl _) key).1, fun key value ttl now' after hinsert k hk => ?_⟩
  exact hfollows.evicts (Nat.le_refl _) hinsert hk

end TtlCache

/-! ## Entries that expire at once -/

namespace LruSample

scoped instance : Clock := ⟨1000⟩

/-- An entry in a cache for one. -/
def ops : List (CacheOp Bool ℕ) := [.insert true 1 60 0 0]

def full : TtlCache Bool ℕ := ⟨1, HashMap.empty.insert true ⟨1, 60⟩, [true]⟩

def history : List (CacheEvent Bool ℕ) := [.insert true ⟨1, 60⟩ []]

theorem refines_lru_full : TtlCache.run 1 ops = some (full, history) ∧
    full.order.Perm full.entries.keys ∧ full.entries.len ≤ 1 ∧ (full.get true 30).1 = some 1 := by
  have hrun : TtlCache.run 1 ops = some (full, history) := rfl
  have hnow : ∀ reading ∈ ops.flatMap CacheOp.readings, reading ≤ 30 := by decide
  have hfull := TtlCache.refines_lru (by decide) hrun hnow
  exact ⟨hrun, hfull.2.1, hfull.2.2.1, hfull.2.2.2.1 true⟩

/-- Another entry without any time to live evicts it, and nothing is live then. -/
theorem evicts_live : TtlCache.run 1 ops = some (full, history) ∧ Live history 0 true ∧
    ∃ after, full.insert false 2 0 0 0 = some after ∧
      (full.pruneExpired 0).evicted after false = [true] ∧
      ¬∃ others : List Bool, others.Nodup ∧ others.length = 1 ∧ ∀ other ∈ others,
        MoreRecent (uses history ++ [false]) true other ∧
          Live (history ++ [.insert false ⟨2, 0⟩ [true]]) 0 other := by
  refine ⟨rfl, ⟨⟨1, 60⟩, rfl, by decide⟩, _, rfl, rfl, ?_⟩
  rintro ⟨others, -, hlength, hothers⟩
  obtain ⟨other, rfl⟩ := List.length_eq_one_iff.1 hlength
  obtain ⟨-, entry, hlatest, hlt⟩ := hothers other List.mem_cons_self
  cases other with
  | true => cases hlatest
  | false =>
    cases hlatest
    exact absurd hlt (by decide)

end LruSample

end Hns
