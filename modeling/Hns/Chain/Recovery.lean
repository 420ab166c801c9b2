import Hns.Chain.Batch

/-!
# Recovery of an interrupted batch

A batch is written by two operations of the store, each of them atomic: its
headers, then the tip. `Interrupted S` is a store that stops after a number of
operations, with the state it has then; what is persisted is that state.

Inserting the batch again restores the headers, but finds none of them new once
they are stored, and then leaves the tip alone.

* `insertHeaders_interrupted_iff`: a batch can be interrupted anywhere and
  inserted again exactly when it does not move the tip.
-/

namespace Hns

open Except EStateM HeaderStore

/-- A store whose operations succeed a number of times, and then fail. -/
structure Interrupted (S : Type) where
  store : S
  remaining : ℕ

namespace Interrupted

variable {S : Type} [HeaderStore S]

/-- An operation of the store, as long as some remain. -/
def limited (op : EStateM ChainError S Unit) : EStateM ChainError (Interrupted S) Unit := fun s =>
  match s.remaining with
  | 0 => .error (.storage "interrupted") s
  | remaining + 1 =>
    match op s.store with
    | .ok () store => .ok () ⟨store, remaining⟩
    | .error e store => .error e ⟨store, remaining⟩

instance : HeaderStore (Interrupted S) where
  getHeader s := getHeader s.store
  putHeader header := limited (putHeader header)
  putHeaders headers := limited (putHeaders headers)
  bestHash s := bestHash s.store
  canonicalHash s := canonicalHash s.store
  promoteCanonicalTip header := limited (promoteCanonicalTip header)
  promoteCanonicalTips headers := limited (promoteCanonicalTips headers)
  replaceCanonicalChain headers := limited (replaceCanonicalChain headers)

theorem getHeader_mk (s : S) (remaining : ℕ) :
    getHeader (⟨s, remaining⟩ : Interrupted S) = getHeader s := rfl

theorem bestHeader_mk (s : S) (remaining : ℕ) :
    bestHeader (⟨s, remaining⟩ : Interrupted S) = bestHeader s := rfl

omit [HeaderStore S] in
theorem limited_succ {op : EStateM ChainError S Unit} {s s' : S} (h : op s = .ok () s')
    (remaining : ℕ) : limited op ⟨s, remaining + 1⟩ = .ok () ⟨s', remaining⟩ := by
  rw [limited]
  dsimp only
  rw [h]

/-- No operation is left to move the tip with. -/
theorem moveTip_zero (tip : Option StoredHeader) (accepted : List StoredHeader) (index : ℕ)
    (candidate : StoredHeader) (s : S) :
    ∃ e, moveTip tip accepted index candidate (⟨s, 0⟩ : Interrupted S) = .error e ⟨s, 0⟩ := by
  rw [moveTip]
  split_ifs
  · exact ⟨_, rfl⟩
  · rw [promoteBestHash, reads_bind]
    cases canonicalChainTo (⟨s, 0⟩ : Interrupted S) candidate.hash with
    | error e => exact ⟨e, rfl⟩
    | ok headers => exact ⟨_, rfl⟩

end Interrupted

section

variable {S : Type} [HeaderStore S] [Digests]

theorem unseen_eq_nil {known : Headers} {seen : List Hash} {headers : List BlockHeader}
    (h : ∀ header ∈ headers, (known header.hash).isSome) : unseen known seen headers = [] := by
  induction headers generalizing seen with
  | nil => rfl
  | cons header headers ih =>
    rw [unseen, if_pos (.inr (h header List.mem_cons_self))]
    exact ih fun header' h' => h header' (List.mem_cons_of_mem _ h')

/-- Once its new headers are stored, a batch has no new header. -/
theorem unseen_add {known : Headers} {headers : List BlockHeader} {accepted : List StoredHeader}
    (hgrows : Grows .mainnet known accepted)
    (hmap : accepted.map StoredHeader.header = unseen known [] headers) :
    unseen (known.add accepted) [] headers = [] := by
  refine unseen_eq_nil fun header hmem => ?_
  cases h : known header.hash with
  | some stored =>
    rw [hgrows.sub _ _ h]
    rfl
  | none =>
    obtain ⟨header', h', hhash⟩ := exists_mem_unseen hmem List.not_mem_nil h
    rw [← hmap] at h'
    obtain ⟨stored, hs, rfl⟩ := List.mem_map.1 h'
    rw [← hhash, ← hash_of_accept (hgrows.accept hs), hgrows.get hs]
    rfl

/-- A batch without new headers does nothing. -/
theorem insertHeaders_of_unseen_eq_nil {headers : List BlockHeader} {s : S}
    (h : unseen (getHeader s) [] headers = []) :
    insertHeaders .mainnet headers s = .ok [] s :=
  insertHeaders_of_grows (.nil _) h.symm

omit [Digests] in
/-- A batch whose headers cannot be stored changes nothing. -/
theorem recordHeaders_error {accepted : List StoredHeader} {s s₁ : S} {tip : Option StoredHeader}
    {e : ChainError} (hne : accepted ≠ []) (htip : bestHeader s = .ok tip)
    (hput : putHeaders accepted s = .error e s₁) : recordHeaders accepted s = .error e s₁ := by
  obtain ⟨index, candidate, hmax, -⟩ := lastMaxByWork_spec hne
  rw [recordHeaders, if_neg (by simpa using hne), reads_bind, htip]
  dsimp only
  rw [hmax, ofOption_some, checked_bind]
  dsimp only
  rw [bind_error hput]

/-- Some new header of the batch has more total work than the tip. -/
def MovesTip (s : S) (batch : List BlockHeader) : Prop :=
  ∃ header work, NewWork (getHeader s) batch header work ∧
    ∀ tip, bestHeader s = .ok (some tip) → tip.chainwork < work

/-- A batch that is accepted can be interrupted before any operation of the store, and inserted
    again in what is persisted, with the outcome of the uninterrupted call, exactly when it does
    not move the tip. -/
theorem insertHeaders_interrupted_iff [LawfulHeaderStore S] {s s' : S} (hs : Reachable s)
    {headers : List BlockHeader} {accepted : List StoredHeader}
    (h : insertHeaders .mainnet headers s = .ok accepted s')
    (hbounded : HeightsBounded (getHeader s')) :
    (∀ remaining, ∃ accepted' s'',
      insertHeaders .mainnet headers
          (insertHeaders .mainnet headers (Interrupted.mk s remaining)).state.store =
        .ok accepted' s'' ∧ view s'' = view s') ↔ ¬MovesTip s headers := by
  obtain ⟨t, ht⟩ := hs.represents
  have hstate : (insertHeaders .mainnet headers s).state = s' := by rw [h]; rfl
  rcases insertHeaders_spec ht headers (hstate ▸ hbounded) with
    ⟨e, herror⟩ | ⟨hnil, hok⟩ | ⟨e, hmap, ⟨index, hmax⟩, s₂, hok, hrep⟩
  · rw [h] at herror
    cases herror
  · rw [h] at hok
    cases hok
    have hmap : [].map StoredHeader.header = unseen t.headers [] headers := hnil.symm
    refine iff_of_true (fun remaining => ⟨[], s, ?_, rfl⟩) ?_
    · have hcut : insertHeaders .mainnet headers (Interrupted.mk s remaining) = .ok [] _ :=
        insertHeaders_of_unseen_eq_nil (by rw [Interrupted.getHeader_mk, ht.getHeader_eq, hnil])
      rw [hcut, Result.state_ok, h]
    · rintro ⟨header, work, hnew, -⟩
      rw [ht.getHeader_eq, newWork_iff (.nil _) hmap] at hnew
      obtain ⟨-, _, hmem, -⟩ := hnew
      cases hmem
  · rw [h] at hok
    cases hok
    have hne : e.accepted ≠ [] := List.ne_nil_of_mem e.candidate_mem
    obtain ⟨s₁, hput, hview⟩ := LawfulHeaderStore.putHeaders_ok e.grows.nodup
      (ht.getHeader_eq ▸ e.grows.fresh)
    -- The interrupted run records the same headers.
    have hrun (remaining : ℕ) :
        insertHeaders .mainnet headers (Interrupted.mk s remaining) =
          recordHeaders e.accepted (Interrupted.mk s remaining) := by
      refine insertHeaders_of_grows ?_ ?_
      · rw [Interrupted.getHeader_mk, ht.getHeader_eq]
        exact e.grows
      · rw [Interrupted.getHeader_mk, ht.getHeader_eq, hmap]
    have hsucc (remaining : ℕ) := recordHeaders_eq (s := Interrupted.mk s (remaining + 1)) hne
      ht.bestHeader_eq hmax (Interrupted.limited_succ hput remaining)
    -- Once the headers are stored, a second call does nothing.
    have hagain : insertHeaders .mainnet headers s₁ = .ok [] s₁ := by
      refine insertHeaders_of_unseen_eq_nil ?_
      rw [getHeader_of_put ht hview, unseen_add e.grows hmap]
    by_cases hp : shouldPromote t.tip e.candidate
    · obtain ⟨tip, htip⟩ := e.exists_tip
      have hlt : tip.chainwork < e.candidate.chainwork := by
        simpa [htip, shouldPromote] using hp
      refine iff_of_false (fun hall => ?_) (fun hnot => hnot ?_)
      · -- The headers are stored, the tip is not moved; the second call finds nothing new.
        obtain ⟨accepted', s'', hs'', hview''⟩ := hall 1
        obtain ⟨err, herr⟩ :=
          Interrupted.moveTip_zero t.tip e.accepted index e.candidate s₁
        rw [hrun, hsucc, if_pos hp, bind_error herr, Result.state_error, hagain] at hs''
        cases hs''
        rw [hview, ht, hrep, ChainTree.toStore_extend, if_pos hp] at hview''
        have hbest : t.best = some e.candidate.hash := congrArg MemoryHeaderStore.best hview''
        rw [(ChainTree.tip_eq_some_iff.1 htip).1, Option.some.injEq] at hbest
        have hfresh := e.grows.fresh _ e.candidate_mem
        rw [← hbest, (ChainTree.tip_eq_some_iff.1 htip).2] at hfresh
        cases hfresh
      · have hnew := newWork_of_mem_accepted e.grows hmap e.candidate_mem
        refine ⟨e.candidate.header, e.candidate.chainwork, ht.getHeader_eq ▸ hnew, ?_⟩
        intro tip' htip'
        rw [ht.bestHeader_eq, htip] at htip'
        cases htip'
        exact hlt
    · refine iff_of_true (fun remaining => ?_) ?_
      · cases remaining with
        | zero =>
          have hzero := recordHeaders_error (s := Interrupted.mk s 0) hne ht.bestHeader_eq rfl
          rw [hrun, hzero, Result.state_error]
          exact ⟨_, _, h, rfl⟩
        | succ remaining =>
          rw [hrun, hsucc, if_neg hp, Result.state_ok]
          refine ⟨[], s₁, hagain, ?_⟩
          rw [hview, ht, hrep, ChainTree.toStore_extend, if_neg hp]
      · rintro ⟨header, work, hnew, hlt⟩
        rw [ht.getHeader_eq, newWork_iff e.grows hmap] at hnew
        obtain ⟨-, stored, hmem, -, rfl⟩ := hnew
        obtain ⟨tip, htip⟩ := e.exists_tip
        have hlt := hlt tip (htip ▸ ht.bestHeader_eq)
        have hle := e.le_candidate hmem
        refine hp ?_
        rw [htip, shouldPromote, decide_eq_true_eq]
        exact hlt.trans_le hle

end

namespace Sample

/-- A block that ties with the tip is recovered wherever the batch is cut. -/
theorem insertHeaders_interrupted_of_tie :
    ∃ (m : MemoryHeaderStore) (s' : MemoryHeaderStore) (accepted : List StoredHeader),
      insertHeaders .mainnet [headerAt true spaced 1] m = .ok accepted s' ∧
        s'.headers (headerAt true spaced 1).hash = some (entryAt true spaced 1) ∧
        ∀ remaining, ∃ accepted' s'', insertHeaders .mainnet [headerAt true spaced 1]
            (insertHeaders .mainnet [headerAt true spaced 1]
              (Interrupted.mk m remaining)).state.store = .ok accepted' s'' ∧
          view s'' = view s' := by
  have hn : 1 < 2 ^ 31 := by norm_num
  have hgrows : Grows .mainnet ChainTree.genesis.headers (entriesTo false spaced 1) :=
    grows_of_spaced hn
  obtain ⟨e, haccepted, hcandidate, hreach⟩ := exists_reachable hn hgrows one_pos
  have hheaders : (ChainTree.genesis.extend e).headers = headersTo false spaced 1 :=
    congrArg ChainTree.genesis.headers.add haccepted
  have hother : Grows .mainnet (ChainTree.genesis.extend e).headers (entriesTo true spaced 1) := by
    rw [hheaders]
    exact grows_other hn hn hgrows (grows_of_spaced hn)
  have hbounded := (ChainTree.genesis.extend e).valid.bounded.add
    (height_lt_of_mem hn : ∀ stored ∈ entriesTo true spaced 1, _)
  have hrepresents : Represents (ChainTree.genesis.extend e).toStore _ := rfl
  obtain ⟨e', haccepted', -, s', hs', hrep⟩ :=
    recordHeaders_ok hrepresents (List.cons_ne_nil _ _) hother hbounded
  have hrun := (insertHeaders_of_grows hother hother.unseen_eq_self.symm).trans hs'
  refine ⟨_, s', _, hrun, ?_,
    (insertHeaders_interrupted_iff hreach hrun hrep.bounded).2 ?_⟩
  · rw [show s' = _ from hrep]
    exact e'.grows.get (haccepted' ▸ List.mem_singleton.2 rfl)
  · rintro ⟨header, work, hnew, hlt⟩
    obtain ⟨-, stored, hmem, -, rfl⟩ :=
      (newWork_iff hother hother.unseen_eq_self.symm).1 hnew
    have htip := hrepresents.bestHeader_eq.trans (congrArg Except.ok (tip_extend one_pos hcandidate))
    have hlt := hlt _ htip
    rw [List.mem_singleton.1 hmem] at hlt
    exact lt_irrefl _ hlt

/-- A block on the genesis block, cut between its two writes: the block is stored, and the tip
    stays the genesis block however often the batch is inserted again. -/
theorem insertHeaders_interrupted :
    Reachable ChainTree.genesis.toStore ∧
      ∃ accepted s' accepted' s'',
        insertHeaders .mainnet [headerAt false spaced 1] ChainTree.genesis.toStore =
          .ok accepted s' ∧
        insertHeaders .mainnet [headerAt false spaced 1]
            (insertHeaders .mainnet [headerAt false spaced 1]
              (Interrupted.mk ChainTree.genesis.toStore 1)).state.store = .ok accepted' s'' ∧
        s'.best = some (headerAt false spaced 1).hash ∧ s''.best = some genesisEntry.hash ∧
        s'.best ≠ s''.best := by
  obtain ⟨accepted, hrun⟩ := Result.eq_ok_of_isOk
    (r := insertHeaders .mainnet [headerAt false spaced 1] ChainTree.genesis.toStore)
    (by decide +kernel)
  obtain ⟨accepted', hagain⟩ := Result.eq_ok_of_isOk
    (r := insertHeaders .mainnet [headerAt false spaced 1]
      (insertHeaders .mainnet [headerAt false spaced 1]
        (Interrupted.mk ChainTree.genesis.toStore 1)).state.store)
    (by decide +kernel)
  exact ⟨reachable_genesis, accepted, _, accepted', _, hrun, hagain, by decide +kernel⟩

end Sample

end Hns
