import Hns.Chain.Refine

/-!
# Runs of a chain

What each insertion does to a store that represents a tree (`insertGenesis_spec`,
`insertHeader_spec`, `insertHeaders_spec`), and so what holds in every state
reached from an empty store by insertions in any order, with any result.

* `Reachable.represents`: the store represents a tree with a heaviest tip.

The headers are those of the main network. Heights are `u32`, and the states
are those where none has reached `2 ^ 32 - 1`.
-/

namespace Hns

open Except EStateM HeaderStore Ancestry

variable {S : Type} [HeaderStore S] [LawfulHeaderStore S] [Digests]

/-! ## The headers an insertion leaves -/

section Keeps

variable {s s₁ : S}

omit [Digests] in
theorem promoteBestHash_keeps (hash : Hash) :
    Keeps (getHeader (S := S)) (promoteBestHash hash) :=
  .bind (.reads _) LawfulHeaderStore.replaceCanonicalChain_keeps

omit [Digests] in
theorem recordHeader_headers {stored : StoredHeader} (hput : putHeader stored s = .ok () s₁) :
    getHeader (recordHeader stored s).state = getHeader s₁ := by
  rw [recordHeader, bind_ok hput]
  refine Keeps.bind (.reads _) (fun best => ?_) s₁
  refine .ite (.ite (.bind (LawfulHeaderStore.promoteCanonicalTip_keeps _) fun _ => .pure _)
    (.bind (promoteBestHash_keeps _) fun _ => .pure _)) (.pure _)

omit [Digests] in
theorem moveTip_keeps (tip : Option StoredHeader) (accepted : List StoredHeader) (index : ℕ)
    (candidate : StoredHeader) :
    Keeps (getHeader (S := S)) (moveTip tip accepted index candidate) :=
  .ite (LawfulHeaderStore.promoteCanonicalTips_keeps _) (promoteBestHash_keeps _)

theorem recordHeaders_headers {t : ChainTree} (h : Represents s t) {accepted : List StoredHeader}
    (hput : putHeaders accepted s = .ok () s₁) (hne : accepted ≠ []) :
    getHeader (recordHeaders accepted s).state = getHeader s₁ := by
  obtain ⟨index, candidate, hmax, -⟩ := lastMaxByWork_spec hne
  rw [recordHeaders_eq hne h.bestHeader_eq hmax hput]
  split_ifs
  · exact Keeps.bind (moveTip_keeps _ _ _ _) (fun _ => .pure _) s₁
  · rfl

end Keeps

/-! ## Each insertion -/

/-- The tree of the genesis block alone. -/
def ChainTree.genesis : ChainTree where
  headers := Table.empty.insert genesisEntry.hash genesisEntry
  best := some genesisEntry.hash
  valid := {
    hash_eq := fun h => by
      rcases Table.insert_eq_some h with ⟨rfl, rfl⟩ | ⟨-, h⟩
      · rfl
      · cases h
    accepted := fun h => by
      rcases Table.insert_eq_some h with ⟨-, rfl⟩ | ⟨-, h⟩
      · exact .inl rfl
      · cases h
    bounded := fun _ _ h => by
      rcases Table.insert_eq_some h with ⟨-, rfl⟩ | ⟨-, h⟩
      · exact (by decide : 0 < 2 ^ 32 - 1)
      · cases h }
  heaviest := ⟨genesisEntry, Table.insert_self .., fun _ _ h => by
    rcases Table.insert_eq_some h with ⟨-, rfl⟩ | ⟨-, h⟩
    · exact le_rfl
    · cases h⟩

omit S [HeaderStore S] [LawfulHeaderStore S] in
theorem ChainTree.genesis_apply : ChainTree.genesis.headers genesisEntry.hash = some genesisEntry :=
  Table.insert_self ..

omit S [HeaderStore S] [LawfulHeaderStore S] in
theorem ChainTree.genesis_tip : ChainTree.genesis.tip = some genesisEntry := genesis_apply

section Spec

variable {s : S} {t : ChainTree} (h : Represents s t)

include h

/-- The genesis block is stored in an empty store, and not again. -/
theorem insertGenesis_spec (header : BlockHeader) :
    (∃ e s', insertGenesis .mainnet header s = .error e s' ∧ Represents s' t ∧
        (header = .mainnetGenesis → t.headers ≠ .empty)) ∨
      t.headers = .empty ∧ ∃ s', insertGenesis .mainnet header s = .ok genesisEntry s' ∧
        Represents s' .genesis := by
  rw [insertGenesis, validateGenesis, checked_bind]
  split_ifs with hheader
  · exact .inl ⟨_, s, rfl, h, fun heq => absurd heq hheader.2⟩
  · have hheader : header = .mainnetGenesis := not_not.1 fun hne => hheader ⟨rfl, hne⟩
    subst hheader
    dsimp only
    rw [fromBits_mainnetGenesis, Except.mapError, checked_bind]
    dsimp only
    by_cases hfresh : getHeader s genesisEntry.hash = none
    · -- A tree without the genesis block is empty.
      have hempty : t.headers = .empty := by
        rw [h.getHeader_eq] at hfresh
        funext hash
        cases hs : t.headers hash with
        | none => rfl
        | some stored => simp [t.valid.genesis_mem hs] at hfresh
      obtain ⟨s₁, hput, hview⟩ := LawfulHeaderStore.putHeader_ok (s := s) hfresh
      have hview : getHeader s₁ = ChainTree.genesis.headers := by
        rw [← view_headers, hview, h, ChainTree.toStore, hempty]
        rfl
      have hmem : getHeader s₁ genesisEntry.hash = some genesisEntry :=
        hview ▸ Table.insert_self ..
      obtain ⟨s₂, hpromote, hview₂⟩ := promoteBestHash_ok (hview ▸ ChainTree.genesis.valid) hmem
      refine .inr ⟨hempty, s₂, (bind_ok hput).trans (bind_ok hpromote), ?_⟩
      rw [Represents, hview₂, MemoryHeaderStore.withTip, view_headers, hview]
      rfl
    · obtain ⟨s', hput, hview⟩ := LawfulHeaderStore.putHeader_duplicate (s := s) hfresh
      refine .inl ⟨_, s', bind_error hput, hview.trans h, fun _ hempty => hfresh ?_⟩
      rw [h.getHeader_eq, hempty]
      rfl

/-- A header is rejected, or the tree is extended by it. -/
theorem insertHeader_spec (header : BlockHeader)
    (hbounded : HeightsBounded (getHeader (insertHeader .mainnet header s).state)) :
    (∃ e s', insertHeader .mainnet header s = .error e s' ∧ Represents s' t) ∨
      ∃ e : t.Extension, e.accepted = [e.candidate] ∧ e.candidate.header = header ∧
        ∃ s', insertHeader .mainnet header s = .ok e.candidate s' ∧
          Represents s' (t.extend e) := by
  rw [insertHeader_eq, h.getHeader_eq] at hbounded ⊢
  cases haccept : accept .mainnet t.headers header with
  | error e => exact .inl ⟨e, s, rfl, h⟩
  | ok stored =>
    rw [haccept] at hbounded
    dsimp only at hbounded ⊢
    have hheader := header_of_accept haccept
    rw [← hheader] at haccept
    by_cases hfresh : getHeader s stored.hash = none
    · obtain ⟨s₁, hput, hview⟩ := LawfulHeaderStore.putHeader_ok (s := s) hfresh
      rw [recordHeader_headers hput, ← view_headers, hview, h] at hbounded
      rw [h.getHeader_eq] at hfresh
      obtain ⟨s', hs', hrep⟩ := recordHeader_ok h haccept hfresh hbounded
      exact .inr ⟨_, rfl, hheader, s', hs', hrep⟩
    · obtain ⟨s', hput, hview⟩ := LawfulHeaderStore.putHeader_duplicate (s := s) hfresh
      exact .inl ⟨_, s', bind_error hput, hview.trans h⟩

/-- A batch is rejected, or has no new header, or the tree is extended by its new headers. -/
theorem insertHeaders_spec (headers : List BlockHeader)
    (hbounded : HeightsBounded (getHeader (insertHeaders .mainnet headers s).state)) :
    (∃ e, insertHeaders .mainnet headers s = .error e s) ∨
      (unseen t.headers [] headers = [] ∧ insertHeaders .mainnet headers s = .ok [] s) ∨
      ∃ e : t.Extension, e.accepted.map StoredHeader.header = unseen t.headers [] headers ∧
        (∃ index, lastMaxByWork e.accepted = some (index, e.candidate)) ∧
        ∃ s', insertHeaders .mainnet headers s = .ok e.accepted s' ∧
          Represents s' (t.extend e) := by
  rcases insertHeaders_cases headers s with herror | ⟨accepted, hgrows, hmap, hs⟩
  · exact .inl herror
  · rw [hs] at hbounded ⊢
    rw [h.getHeader_eq] at hgrows hmap
    rcases eq_or_ne accepted [] with rfl | hne
    · exact .inr (.inl ⟨hmap.symm, rfl⟩)
    · obtain ⟨s₁, hput, hview⟩ := LawfulHeaderStore.putHeaders_ok hgrows.nodup
        (h.getHeader_eq ▸ hgrows.fresh)
      rw [recordHeaders_headers h hput hne, ← view_headers, hview, h] at hbounded
      obtain ⟨e, rfl, hlast, s', hs', hrep⟩ := recordHeaders_ok h hne hgrows hbounded
      exact .inr (.inr ⟨e, hmap, hlast, s', hs', hrep⟩)

end Spec

/-! ## Reachable states -/

omit [LawfulHeaderStore S] in
/-- One insertion, whatever its result. -/
inductive Step : S → S → Prop
  | genesis (header : BlockHeader) (s : S) : Step s (insertGenesis .mainnet header s).state
  | header (header : BlockHeader) (s : S) : Step s (insertHeader .mainnet header s).state
  | headers (headers : List BlockHeader) (s : S) :
      Step s (insertHeaders .mainnet headers s).state

/-- The states reached from an empty store. -/
inductive Reachable : S → Prop
  | init {s : S} (h : view s = .empty) : Reachable s
  | step {s s' : S} (hs : Reachable s) (hstep : Step s s')
      (hbounded : HeightsBounded (getHeader s')) : Reachable s'

/-- An insertion leaves a store that represents a tree. -/
theorem Represents.step {s s' : S} {t : ChainTree} (h : Represents s t) (hstep : Step s s')
    (hbounded : HeightsBounded (getHeader s')) : ∃ t', Represents s' t' := by
  cases hstep with
  | genesis header =>
    rcases insertGenesis_spec h header with ⟨e, s', hs', hrep, -⟩ | ⟨-, s', hs', hrep⟩
    · exact ⟨t, by rwa [hs']⟩
    · exact ⟨.genesis, by rwa [hs']⟩
  | header header =>
    rcases insertHeader_spec h header hbounded with ⟨e, s', hs', hrep⟩ | ⟨e, -, -, s', hs', hrep⟩
    · exact ⟨t, by rwa [hs']⟩
    · exact ⟨t.extend e, by rwa [hs']⟩
  | headers headers =>
    rcases insertHeaders_spec h headers hbounded with
      ⟨e, hs'⟩ | ⟨-, hs'⟩ | ⟨e, -, -, s', hs', hrep⟩
    · exact ⟨t, by rwa [hs']⟩
    · exact ⟨t, by rwa [hs']⟩
    · exact ⟨t.extend e, by rwa [hs']⟩

/-- Every reachable store represents a tree with a heaviest tip. -/
theorem Reachable.represents {s : S} (h : Reachable s) : ∃ t, Represents s t := by
  induction h with
  | init h => exact ⟨.empty, h⟩
  | step _ hstep hbounded ih =>
    obtain ⟨t, ht⟩ := ih
    exact ht.step hstep hbounded

/-- The genesis block can be inserted in the empty memory store. -/
theorem reachable_genesis : Reachable ChainTree.genesis.toStore := by
  have hempty : Represents MemoryHeaderStore.empty ChainTree.empty := rfl
  have hstep := Step.genesis .mainnetGenesis MemoryHeaderStore.empty
  rcases insertGenesis_spec hempty .mainnetGenesis with
    ⟨e, s, -, -, hne⟩ | ⟨-, s, hs, hrep⟩
  · exact absurd rfl (hne rfl)
  · rw [hs, Result.state_ok] at hstep
    rw [← show s = _ from hrep]
    exact (Reachable.init rfl).step hstep hrep.bounded

end Hns
