import Hns.Chain.Run
import Hns.Chain.Sqlite
import Hns.Lib.Tracking

/-!
# The two header stores agree

On any lawful store an insertion tracks the same insertion into the memory store
with its contents (`insertGenesis_tracks`, `insertHeader_tracks`,
`insertHeaders_tracks`), under either difficulty policy. The one thing the
stores handle differently, an index with two headers at a height, does not come
up: the headers are *grounded*, each one height above its parent down to height
0, so that the lineage of a tip has one header for each height. Insertions keep
that, starting from a genesis block of any kind.

* `memory_agrees_with_sqlite`: in every run, the store in memory and the one in
  the database answer alike.
-/

namespace Hns

open Except EStateM HeaderStore Ancestry

variable {S : Type} [HeaderStore S] [LawfulHeaderStore S]

/-! ## The operations of a store -/

section Operations

variable {s : S}

omit [LawfulHeaderStore S] in
/-- An operation that succeeds on both sides, with the same contents. -/
theorem HeaderStore.Succeeds.tracks {x : EStateM ChainError S Unit}
    {y : EStateM ChainError MemoryHeaderStore Unit} {m : MemoryHeaderStore}
    (hx : Succeeds s x m) (hy : Succeeds (view s) y m) : Tracks view x y s := by
  obtain ⟨s', hs', rfl⟩ := hx
  obtain ⟨m', hm', hview⟩ := hy
  exact .of_ok hs' (hm'.trans (congrArg _ hview))

theorem putHeader_tracks (stored : StoredHeader) :
    Tracks view (putHeader stored) (putHeader stored) s := by
  by_cases hnone : getHeader s stored.hash = none
  · exact (LawfulHeaderStore.putHeader_ok hnone).tracks
      (LawfulHeaderStore.putHeader_ok (s := view s) hnone)
  · obtain ⟨s', hs', hview⟩ := LawfulHeaderStore.putHeader_duplicate hnone
    obtain ⟨m', hm', hview'⟩ := LawfulHeaderStore.putHeader_duplicate (s := view s) hnone
    refine .of_error hs' (hm'.trans (congrArg _ ?_))
    exact hview'.trans hview.symm

/-- A header that has been put was new, and is known now. -/
theorem getHeader_of_putHeader {s₁ : S} {stored : StoredHeader}
    (hput : putHeader stored s = .ok () s₁) :
    getHeader s stored.hash = none ∧
      getHeader s₁ = Table.insert (getHeader s) stored.hash stored := by
  by_cases hnone : getHeader s stored.hash = none
  · obtain ⟨s', hs', hview⟩ := LawfulHeaderStore.putHeader_ok hnone
    rw [hput] at hs'
    cases hs'
    exact ⟨hnone, congrArg MemoryHeaderStore.headers hview⟩
  · obtain ⟨s', hs', -⟩ := LawfulHeaderStore.putHeader_duplicate hnone
    rw [hput] at hs'
    cases hs'

omit [LawfulHeaderStore S] in
theorem bestHeader_view : bestHeader s = bestHeader (view s) := rfl

omit [LawfulHeaderStore S] in
theorem canonicalChainTo_view (hash : Hash) :
    canonicalChainTo s hash = canonicalChainTo (view s) hash := by
  have hloop (fuel : ℕ) (current : StoredHeader) (headers : List StoredHeader) :
      canonicalLoop s fuel current headers = canonicalLoop (view s) fuel current headers := by
    induction fuel generalizing current headers with
    | zero => rfl
    | succ fuel ih =>
      rw [canonicalLoop, canonicalLoop]
      split_ifs
      · exact congrArg _ (funext fun parent => ih parent _)
      · rfl
  rw [canonicalChainTo, canonicalChainTo]
  exact congrArg _ (funext fun current => hloop _ _ _)

end Operations

/-! ## Grounded headers -/

/-- Each header is kept under its hash, and stands on a parent, one below, down to height 0. -/
structure Grounded (known : Headers) : Prop where
  hash_eq {hash : Hash} {stored : StoredHeader} (h : known hash = some stored) :
    stored.hash = hash
  bounded {hash : Hash} {stored : StoredHeader} (h : known hash = some stored) :
    stored.height < maxWalk
  ranked : Ranked (parentIn known) (fun stored => known stored.hash = some stored)
    StoredHeader.height

theorem Grounded.empty : Grounded .empty := ⟨nofun, nofun, nofun⟩

/-- A new header at height 0, or one above its parent, keeps the headers grounded. -/
theorem Grounded.insert {known : Headers} (h : Grounded known) {stored : StoredHeader}
    (hfresh : known stored.hash = none) (hbounded : stored.height < maxWalk)
    (hparent : 0 < stored.height → ∃ parent, known stored.header.prevBlock = some parent ∧
      stored.height = parent.height + 1) : Grounded (known.insert stored.hash stored) := by
  have hsub : known.Sub (known.insert stored.hash stored) := Table.sub_insert stored hfresh
  constructor
  · intro hash stored' h'
    rcases Table.insert_eq_some h' with ⟨rfl, rfl⟩ | ⟨-, h'⟩
    · rfl
    · exact h.hash_eq h'
  · intro hash stored' h'
    rcases Table.insert_eq_some h' with ⟨-, rfl⟩ | ⟨-, h'⟩
    · exact hbounded
    · exact h.bounded h'
  · intro stored' h' hpos
    rcases Table.insert_eq_some h' with ⟨-, rfl⟩ | ⟨-, h'⟩
    · obtain ⟨parent, hp, hheight⟩ := hparent hpos
      refine ⟨parent, hsub _ _ hp, hsub _ _ ?_, hheight⟩
      rw [h.hash_eq hp, hp]
    · obtain ⟨parent, hp, hnode, hheight⟩ := h.ranked stored' h' hpos
      exact ⟨parent, hsub _ _ hp, hsub _ _ hnode, hheight⟩

/-- Rebuilding the index for a stored header. -/
theorem promoteBestHash_tracks {s : S} (h : Grounded (getHeader s)) {tip : StoredHeader}
    (htip : getHeader s tip.hash = some tip) :
    Tracks view (promoteBestHash tip.hash) (promoteBestHash tip.hash) s :=
  (promoteBestHash_lineage h.ranked htip (h.bounded htip)).tracks
    (promoteBestHash_lineage (s := view s) h.ranked htip (h.bounded htip))

/-! ## Each insertion -/

variable [Digests] {policy : DifficultyPolicy}

/-- An accepted header keeps the headers grounded. -/
theorem Grounded.insert_accepted {known : Headers} (h : Grounded known) {header : BlockHeader}
    {stored : StoredHeader} (hacc : accept policy known header = .ok stored)
    (hfresh : known stored.hash = none) : Grounded (known.insert stored.hash stored) := by
  obtain ⟨parent, work, hp, -, -, -, rfl⟩ := accept_eq_ok.1 hacc
  refine h.insert hfresh (Nat.mod_lt _ (by decide)) fun hpos => ⟨parent, hp, ?_⟩
  have hlt := h.bounded hp
  rw [maxWalk] at hlt
  simp only [StoredHeader.child] at hpos ⊢
  omega

theorem Grows.grounded {known : Headers} {accepted : List StoredHeader}
    (h : Grows policy known accepted) (hgrounded : Grounded known) :
    Grounded (known.add accepted) := by
  induction h with
  | nil => exact hgrounded
  | cons hacc hfresh _ ih => exact ih (hgrounded.insert_accepted hacc hfresh)

/-- The end of `insertHeader`, for an accepted header. -/
theorem recordHeader_tracks {s : S} (h : Grounded (getHeader s)) {header : BlockHeader}
    {stored : StoredHeader} (hacc : accept policy (getHeader s) header = .ok stored) :
    Tracks view (recordHeader stored) (recordHeader stored) s := by
  refine (putHeader_tracks stored).bind fun _ s₁ hput => ?_
  obtain ⟨hfresh, hget⟩ := getHeader_of_putHeader hput
  have hgrounded : Grounded (getHeader s₁) := hget ▸ h.insert_accepted hacc hfresh
  have hstored : getHeader s₁ stored.hash = some stored := hget ▸ Table.insert_self ..
  have hpresent : getHeader s₁ stored.hash ≠ none := by simp [hstored]
  refine .reads_bind bestHeader_view fun best _ => ?_
  refine .ite (fun _ => .ite (fun _ => .bind ?_ fun _ _ _ => .pure _)
    fun _ => .bind ?_ fun _ _ _ => .pure _) fun _ => .pure _
  · exact (LawfulHeaderStore.promoteCanonicalTip_ok hpresent).tracks
      (LawfulHeaderStore.promoteCanonicalTip_ok (s := view s₁) hpresent)
  · exact promoteBestHash_tracks hgrounded hstored

/-- The end of `insertHeaders`, for the accepted headers. -/
theorem recordHeaders_tracks {s : S} (h : Grounded (getHeader s)) {accepted : List StoredHeader}
    (hgrows : Grows policy (getHeader s) accepted) :
    Tracks view (recordHeaders accepted) (recordHeaders accepted) s := by
  refine .ite (fun _ => .pure _) fun hne => ?_
  refine .reads_bind bestHeader_view fun best _ => ?_
  refine .checked_bind fun ⟨index, candidate⟩ htop => ?_
  have hmem : candidate ∈ accepted := by
    obtain ⟨index', greatest, hmax, hget, -⟩ := lastMaxByWork_spec (by simpa using hne)
    rw [ofOption_eq_ok, hmax] at htop
    cases htop
    exact List.mem_of_getElem? hget
  have hput : Succeeds s (putHeaders accepted) ((view s).put accepted) :=
    LawfulHeaderStore.putHeaders_ok hgrows.nodup hgrows.fresh
  have hput' : Succeeds (view s) (putHeaders accepted) ((view s).put accepted) :=
    LawfulHeaderStore.putHeaders_ok hgrows.nodup hgrows.fresh
  refine (hput.tracks hput').bind fun _ s₁ hs₁ => ?_
  obtain ⟨s', hs', hview⟩ := hput
  rw [hs₁] at hs'
  cases hs'
  have hget : getHeader s₁ = Headers.add (getHeader s) accepted :=
    congrArg MemoryHeaderStore.headers hview
  have hgrounded : Grounded (getHeader s₁) := hget ▸ hgrows.grounded h
  have hstored : ∀ stored ∈ accepted, getHeader s₁ stored.hash = some stored :=
    fun stored hmem => hget ▸ hgrows.get hmem
  have hpresent : ∀ stored ∈ accepted.take (index + 1), getHeader s₁ stored.hash ≠ none :=
    fun stored hmem => by simp [hstored stored (List.mem_of_mem_take hmem)]
  refine .ite (fun _ => .ite (fun _ => .bind ?_ fun _ _ _ => .pure _)
    fun _ => .bind ?_ fun _ _ _ => .pure _) fun _ => .pure _
  · exact (LawfulHeaderStore.promoteCanonicalTips_ok hpresent).tracks
      (LawfulHeaderStore.promoteCanonicalTips_ok (s := view s₁) hpresent)
  · exact promoteBestHash_tracks hgrounded (hstored candidate hmem)

variable (policy)

theorem insertGenesis_tracks {s : S} (h : Grounded (getHeader s)) (header : BlockHeader) :
    Tracks view (insertGenesis policy header) (insertGenesis policy header) s := by
  refine .checked_bind fun _ _ => .checked_bind fun work _ => ?_
  refine (putHeader_tracks _).bind fun _ s₁ hput => ?_
  obtain ⟨hfresh, hget⟩ := getHeader_of_putHeader hput
  have hgrounded : Grounded (getHeader s₁) := hget ▸ h.insert hfresh (Nat.two_pow_pos 32) nofun
  have hself : getHeader s₁ _ = some _ := (congrFun hget _).trans (Table.insert_self ..)
  have hpromote := promoteBestHash_tracks hgrounded hself
  exact .bind hpromote fun _ _ _ => .pure _

theorem insertHeader_tracks {s : S} (h : Grounded (getHeader s)) (header : BlockHeader) :
    Tracks view (insertHeader policy header) (insertHeader policy header) s := by
  have hget : getHeader (view s) = getHeader s := rfl
  rw [Tracks, insertHeader_eq, insertHeader_eq, hget]
  cases hacc : accept policy (getHeader s) header with
  | error e => rfl
  | ok stored => exact recordHeader_tracks h hacc

theorem insertHeaders_tracks {s : S} (h : Grounded (getHeader s)) (headers : List BlockHeader) :
    Tracks view (insertHeaders policy headers) (insertHeaders policy headers) s := by
  refine .reads_bind rfl fun batch hbatch => ?_
  obtain ⟨inv, -⟩ := (Batch.Inv.empty (getHeader s)).foldlM hbatch
  exact recordHeaders_tracks h inv.grows

/-! ## What the insertions leave is grounded -/

omit [Digests] in
/-- Putting a header and then leaving the headers alone, when the header may be put. -/
theorem grounded_of_putHeader {α : Type} {stored : StoredHeader} {x : Unit → EStateM ChainError S α}
    (hx : ∀ u, Keeps getHeader (x u)) {s : S} (h : Grounded (getHeader s))
    (hnew : getHeader s stored.hash = none →
      Grounded (Table.insert (getHeader s) stored.hash stored)) :
    Grounded (getHeader ((putHeader stored >>= x) s).state) := by
  rw [Keeps.state_bind hx]
  cases hput : putHeader stored s with
  | ok _ s₁ =>
    obtain ⟨hfresh, hget⟩ := getHeader_of_putHeader hput
    exact (congrArg Grounded hget).mpr (hnew hfresh)
  | error e s₁ =>
    by_cases hnone : getHeader s stored.hash = none
    · obtain ⟨s', hs', -⟩ := LawfulHeaderStore.putHeader_ok hnone
      rw [hput] at hs'
      cases hs'
    · obtain ⟨s', hs', hview⟩ := LawfulHeaderStore.putHeader_duplicate hnone
      rw [hput] at hs'
      cases hs'
      exact (congrArg (fun m => Grounded m.headers) hview).mpr h

theorem insertGenesis_grounded {s : S} (h : Grounded (getHeader s)) (header : BlockHeader) :
    Grounded (getHeader (insertGenesis policy header s).state) := by
  rw [insertGenesis, checked_bind]
  cases validateGenesis policy header with
  | error e => exact h
  | ok u =>
    dsimp only
    rw [checked_bind]
    cases (Chainwork.fromBits header.bits).mapError ChainError.pow with
    | error e => exact h
    | ok work =>
      exact grounded_of_putHeader (fun _ => .bind (promoteBestHash_keeps _) fun _ => .pure _) h
        fun hfresh => h.insert hfresh (Nat.two_pow_pos 32) (by simp)

theorem insertHeader_grounded {s : S} (h : Grounded (getHeader s)) (header : BlockHeader) :
    Grounded (getHeader (insertHeader policy header s).state) := by
  rw [insertHeader_eq]
  cases hacc : accept policy (getHeader s) header with
  | error e => exact h
  | ok stored =>
    refine grounded_of_putHeader (fun _ => .bind (.reads _) fun best => ?_) h
      (h.insert_accepted hacc)
    exact .ite (.ite (.bind (LawfulHeaderStore.promoteCanonicalTip_keeps _) fun _ => .pure _)
      (.bind (promoteBestHash_keeps _) fun _ => .pure _)) (.pure _)

theorem insertHeaders_grounded {s : S} (h : Grounded (getHeader s)) (headers : List BlockHeader) :
    Grounded (getHeader (insertHeaders policy headers s).state) := by
  rcases insertHeaders_cases headers s with ⟨e, herror⟩ | ⟨accepted, hgrows, -, heq⟩
  · exact herror ▸ h
  obtain ⟨s₁, hput, hview⟩ := LawfulHeaderStore.putHeaders_ok hgrows.nodup hgrows.fresh
  have hgrounded : Grounded (getHeader s₁) :=
    (congrArg (fun m => Grounded m.headers) hview).mpr (hgrows.grounded h)
  rw [heq, recordHeaders]
  split_ifs
  · exact h
  rw [reads_bind]
  cases bestHeader s with
  | error e => exact h
  | ok best =>
    dsimp only
    rw [checked_bind]
    cases ofOption ChainError.missingBestHeader (lastMaxByWork accepted) with
    | error e => exact h
    | ok top =>
      dsimp only
      rw [bind_ok hput]
      refine (congrArg Grounded (Keeps.ite ?_ (.pure _) s₁)).mpr hgrounded
      exact .ite (.bind (LawfulHeaderStore.promoteCanonicalTips_keeps _) fun _ => .pure _)
        (.bind (promoteBestHash_keeps _) fun _ => .pure _)

/-! ## Runs -/

/-- A call of one of the methods that insert headers. -/
inductive InsertCall
  | genesis (header : BlockHeader)
  | single (header : BlockHeader)
  | batch (headers : List BlockHeader)

/-- The headers a call returns: one, or those of the batch. -/
def InsertCall.run {S : Type} [HeaderStore S] :
    InsertCall → EStateM ChainError S (StoredHeader ⊕ List StoredHeader)
  | .genesis header => .inl <$> insertGenesis policy header
  | .single header => .inl <$> insertHeader policy header
  | .batch headers => .inr <$> insertHeaders policy headers

theorem InsertCall.run_tracks {s : S} (h : Grounded (getHeader s)) (call : InsertCall) :
    Tracks view (call.run policy) (call.run policy) s := by
  cases call with
  | genesis header => exact (insertGenesis_tracks policy h header).bind fun _ _ _ => .pure _
  | single header => exact (insertHeader_tracks policy h header).bind fun _ _ _ => .pure _
  | batch headers => exact (insertHeaders_tracks policy h headers).bind fun _ _ _ => .pure _

theorem InsertCall.run_grounded {s : S} (h : Grounded (getHeader s)) (call : InsertCall) :
    Grounded (getHeader (call.run policy s).state) := by
  cases call with
  | genesis header =>
    rw [InsertCall.run, state_map]
    exact insertGenesis_grounded policy h header
  | single header =>
    rw [InsertCall.run, state_map]
    exact insertHeader_grounded policy h header
  | batch headers =>
    rw [InsertCall.run, state_map]
    exact insertHeaders_grounded policy h headers

/-- In every run from an empty store, the two stores give the same results, and then answer
    alike. -/
theorem memory_agrees_with_sqlite (calls : List InsertCall) :
    let memory := runEach (InsertCall.run policy) calls MemoryHeaderStore.empty
    let sqlite := runEach (InsertCall.run policy) calls SqliteHeaderStore.empty
    sqlite.1 = memory.1 ∧ (∀ hash, getHeader sqlite.2 hash = getHeader memory.2 hash) ∧
      bestHash sqlite.2 = bestHash memory.2 ∧
      ∀ height, canonicalHash sqlite.2 height = canonicalHash memory.2 height := by
  obtain ⟨hvalues, hview⟩ := @runEach_eq _ _ _ _ _ view (fun m => Grounded m.headers) _ _
    (fun call (s : SqliteHeaderStore) h => InsertCall.run_tracks policy h call)
    (fun call (m : MemoryHeaderStore) h => @InsertCall.run_grounded _ _ _ _ policy m h call) calls
    SqliteHeaderStore.empty Grounded.empty
  exact ⟨hvalues, congrFun (congrArg MemoryHeaderStore.headers hview),
    congrArg MemoryHeaderStore.best hview, congrFun (congrArg MemoryHeaderStore.canonical hview)⟩

end Hns
