import Hns.Chain.Sample
import Hns.Chain.Sqlite

/-!
# Rejected headers

An insertion first checks, then stores its headers, and last moves the tip. What
is rejected by a check leaves no trace, but a failure behind the point where the
headers are stored would. There is none in a reachable state: the ancestors of
every header are stored (`Rooted`), with the heights that wrap around as well,
so that the index can be rebuilt for whatever header becomes the tip
(`exists_recordHeader`, `exists_recordHeaders`).

* `view_of_error`: in every reachable state an insertion that fails leaves the
  headers, the index and the best hash as they were.
-/

namespace Hns

open Except EStateM HeaderStore Ancestry

/-- Headers under their hashes, each of positive height above a stored one. -/
structure Rooted (known : Headers) : Prop where
  hash_eq {hash stored} (h : known hash = some stored) : stored.hash = hash
  height_lt {hash stored} (h : known hash = some stored) : stored.height < maxWalk
  ranked : Ranked (parentIn known) (fun stored => known stored.hash = some stored)
    StoredHeader.height

theorem ValidTree.rooted [Digests] {known : Headers} (tree : ValidTree known) : Rooted known where
  hash_eq := tree.hash_eq
  height_lt h := (tree.bounded _ _ h).trans (by decide)
  ranked := tree.ranked

/-- A header that is accepted stands on a stored one, unless its height has wrapped around. -/
theorem Rooted.insert [Digests] {policy : DifficultyPolicy} {known : Headers} (h : Rooted known)
    {stored : StoredHeader} (haccept : accept policy known stored.header = .ok stored)
    (hfresh : known stored.hash = none) : Rooted (known.insert stored.hash stored) := by
  obtain ⟨parent, work, hp, -, -, -, hchild⟩ := accept_eq_ok.1 haccept
  have hheight : stored.height = (parent.height + 1) % 2 ^ 32 := by rw [hchild]; rfl
  have hsub := Table.sub_insert stored hfresh
  refine ⟨?_, ?_, ?_⟩
  · intro hash stored' hs
    rcases Table.insert_eq_some hs with ⟨rfl, rfl⟩ | ⟨-, hs⟩
    · rfl
    · exact h.hash_eq hs
  · intro hash stored' hs
    rcases Table.insert_eq_some hs with ⟨-, rfl⟩ | ⟨-, hs⟩
    · rw [hheight]
      exact Nat.mod_lt _ (by decide)
    · exact h.height_lt hs
  · intro stored' hs hpos
    rcases Table.insert_eq_some hs with ⟨-, rfl⟩ | ⟨-, hs⟩
    · have hlt : parent.height < 2 ^ 32 := h.height_lt hp
      have hnode : known parent.hash = some parent := by rwa [h.hash_eq hp]
      refine ⟨parent, hsub _ _ hp, hsub _ _ hnode, ?_⟩
      -- A height that has wrapped around is zero.
      rcases Nat.lt_or_ge (parent.height + 1) (2 ^ 32) with hroom | hwrap
      · rw [hheight, Nat.mod_eq_of_lt hroom]
      · obtain heq : parent.height + 1 = 2 ^ 32 := by omega
        rw [hheight, heq, Nat.mod_self] at hpos
        exact absurd hpos (lt_irrefl 0)
    · obtain ⟨parent', hp', hnode, hrank⟩ := h.ranked stored' hs hpos
      exact ⟨parent', hsub _ _ hp', hsub _ _ hnode, hrank⟩

theorem Rooted.add [Digests] {policy : DifficultyPolicy} {known : Headers} (h : Rooted known)
    {accepted : List StoredHeader} (hgrows : Grows policy known accepted) :
    Rooted (known.add accepted) := by
  induction hgrows with
  | nil => exact h
  | cons haccept hfresh _ ih => exact ih (h.insert haccept hfresh)

section

variable {S : Type} [HeaderStore S] [LawfulHeaderStore S]

/-! ## Once the headers are stored -/

/-- The index can be rebuilt for every stored header. -/
theorem exists_promoteBestHash {s : S} (h : Rooted (getHeader s)) {tip : StoredHeader}
    (htip : getHeader s tip.hash = some tip) :
    ∃ s', promoteBestHash tip.hash s = .ok () s' := by
  obtain ⟨s', hs', -⟩ := promoteBestHash_lineage h.ranked htip (h.height_lt htip)
  exact ⟨s', hs'⟩

section

variable [Digests] {s s₁ : S} {t : ChainTree} (h : Represents s t) {accepted : List StoredHeader}
  (hgrows : Grows .mainnet t.headers accepted) (hput : view s₁ = (view s).put accepted)

include h hgrows hput

omit [LawfulHeaderStore S] in
theorem rooted_of_put : Rooted (getHeader s₁) := by
  rw [getHeader_of_put h hput]
  exact t.valid.rooted.add hgrows

omit [LawfulHeaderStore S] in
theorem getHeader_of_mem {stored : StoredHeader} (hmem : stored ∈ accepted) :
    getHeader s₁ stored.hash = some stored := by
  rw [getHeader_of_put h hput]
  exact hgrows.get hmem

end

variable [Digests] {s : S} {t : ChainTree}

/-- Recording a new header does not fail. -/
theorem exists_recordHeader (h : Represents s t) {stored : StoredHeader}
    (haccept : accept .mainnet t.headers stored.header = .ok stored)
    (hfresh : t.headers stored.hash = none) : ∃ s', recordHeader stored s = .ok stored s' := by
  have hgrows : Grows .mainnet t.headers [stored] := .cons haccept hfresh (.nil _)
  have hnew : getHeader s stored.hash = none := by rwa [h.getHeader_eq]
  obtain ⟨s₁, hput, hview⟩ := LawfulHeaderStore.putHeader_ok hnew
  have hmem := getHeader_of_mem h hgrows hview (List.mem_singleton.2 rfl)
  rw [recordHeader, bind_ok hput, reads_bind, bestHeader_of_put h hgrows hview]
  dsimp only
  split_ifs
  · obtain ⟨s₂, hs₂, -⟩ := LawfulHeaderStore.promoteCanonicalTip_ok
      (show getHeader s₁ stored.hash ≠ none by simp [hmem])
    exact ⟨s₂, bind_ok hs₂⟩
  · obtain ⟨s₂, hs₂⟩ := exists_promoteBestHash (rooted_of_put h hgrows hview) hmem
    exact ⟨s₂, bind_ok hs₂⟩
  · exact ⟨s₁, rfl⟩

/-- Recording the new headers of a batch does not fail. -/
theorem exists_recordHeaders (h : Represents s t) {accepted : List StoredHeader}
    (hgrows : Grows .mainnet t.headers accepted) :
    ∃ s', recordHeaders accepted s = .ok accepted s' := by
  rcases eq_or_ne accepted [] with rfl | hne
  · exact ⟨s, rfl⟩
  obtain ⟨s₁, hput, hview⟩ := LawfulHeaderStore.putHeaders_ok hgrows.nodup
    (h.getHeader_eq ▸ hgrows.fresh)
  obtain ⟨index, candidate, hmax, hget, -⟩ := lastMaxByWork_spec hne
  rw [recordHeaders_eq hne h.bestHeader_eq hmax hput]
  have hmove : ∃ s₂, moveTip t.tip accepted index candidate s₁ = .ok () s₂ := by
    rw [moveTip]
    split_ifs
    · have hstored : ∀ b ∈ accepted.take (index + 1), getHeader s₁ b.hash ≠ none := by
        intro b hb
        simp [getHeader_of_mem h hgrows hview (List.mem_of_mem_take hb)]
      obtain ⟨s₂, hs₂, -⟩ := LawfulHeaderStore.promoteCanonicalTips_ok hstored
      exact ⟨s₂, hs₂⟩
    · exact exists_promoteBestHash (rooted_of_put h hgrows hview)
        (getHeader_of_mem h hgrows hview (List.mem_of_getElem? hget))
  obtain ⟨s₂, hs₂⟩ := hmove
  split_ifs
  · exact ⟨s₂, bind_ok hs₂⟩
  · exact ⟨s₁, rfl⟩

/-! ## What fails -/

/-- A header is recorded, or nothing changes. -/
theorem view_of_insertHeader_error (h : Represents s t) {header : BlockHeader} {e : ChainError}
    {s' : S} (herror : insertHeader .mainnet header s = .error e s') : view s' = view s := by
  rw [insertHeader_eq, h.getHeader_eq] at herror
  cases haccept : accept .mainnet t.headers header with
  | error e' =>
    rw [haccept] at herror
    cases herror
    rfl
  | ok stored =>
    rw [haccept] at herror
    dsimp only at herror
    rw [← header_of_accept haccept] at haccept
    by_cases hfresh : t.headers stored.hash = none
    · obtain ⟨s₁, hs₁⟩ := exists_recordHeader h haccept hfresh
      rw [hs₁] at herror
      cases herror
    · obtain ⟨s₁, hput, hview⟩ := LawfulHeaderStore.putHeader_duplicate (h.getHeader_eq ▸ hfresh)
      rw [recordHeader, bind_error hput] at herror
      cases herror
      exact hview

/-- A batch is recorded, or nothing changes, whichever of its headers is rejected. -/
theorem view_of_insertHeaders_error (h : Represents s t) {headers : List BlockHeader}
    {e : ChainError} {s' : S} (herror : insertHeaders .mainnet headers s = .error e s') :
    view s' = view s := by
  rcases insertHeaders_cases headers s with ⟨e', hs⟩ | ⟨accepted, hgrows, -, hs⟩
  · rw [hs] at herror
    cases herror
    rfl
  · obtain ⟨s₁, hs₁⟩ := exists_recordHeaders h (h.getHeader_eq ▸ hgrows)
    rw [hs, hs₁] at herror
    cases herror

/-- In every reachable state an insertion that fails leaves the contents as they were. -/
theorem view_of_error (hs : Reachable s) :
    (∀ header e s', insertGenesis .mainnet header s = .error e s' → view s' = view s) ∧
    (∀ header e s', insertHeader .mainnet header s = .error e s' → view s' = view s) ∧
    ∀ headers e s', insertHeaders .mainnet headers s = .error e s' → view s' = view s := by
  obtain ⟨t, ht⟩ := hs.represents
  refine ⟨fun header e s' herror => ?_, fun header e s' => view_of_insertHeader_error ht,
    fun headers e s' => view_of_insertHeaders_error ht⟩
  rcases insertGenesis_spec ht header with ⟨e', s₁, hs₁, hrep, -⟩ | ⟨-, s₁, hs₁, -⟩
  · rw [hs₁] at herror
    cases herror
    exact hrep.trans ht.symm
  · rw [hs₁] at herror
    cases herror

end

open scoped Sample in
/-- An orphan is rejected, in a batch behind a stored header or alone by an empty database. -/
theorem view_of_error_orphan :
    (∃ e s', insertHeaders .mainnet [.mainnetGenesis, Sample.headerAt false Sample.spaced 2]
        ChainTree.genesis.toStore = .error e s' ∧ view s' = view ChainTree.genesis.toStore) ∧
      ∃ e s', insertHeader .mainnet (Sample.headerAt false Sample.spaced 2)
        SqliteHeaderStore.empty = .error e s' ∧ view s' = view SqliteHeaderStore.empty := by
  have hbatch : insertHeaders .mainnet [.mainnetGenesis, Sample.headerAt false Sample.spaced 2]
      ChainTree.genesis.toStore = .error .unknownParent ChainTree.genesis.toStore := by rfl
  have halone : insertHeader .mainnet (Sample.headerAt false Sample.spaced 2)
      SqliteHeaderStore.empty = .error .unknownParent SqliteHeaderStore.empty := by rfl
  exact ⟨⟨_, _, hbatch, (view_of_error reachable_genesis).2.2 _ _ _ hbatch⟩,
    _, _, halone, (view_of_error (.init rfl)).2.1 _ _ _ halone⟩

end Hns
