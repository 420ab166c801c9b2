import Hns.Chain.Rejected
import Hns.Sync.Racing
import Hns.Sync.Reach

/-!
# What stalls a racing round

The first answer to arrive wins a batch of a racing round, whatever it is: an
empty one ends the round, and so does one that brings nothing new, or one that
is rejected. The answers that arrive later are dropped, and a peer that has
nothing to offer is asked like any other.

* `syncOnceRacing_unstalled_iff`: the round asks only peers that are ahead, and
  stores a header when a candidate offers one, exactly when every candidate that
  completes a handshake is ahead and the first answer of the first batch is such
  an offer, if there is one.
-/

namespace Hns

open Except EStateM HeaderStore HeaderPeerClient

/-- The headers are valid, each on a stored one or on one before it, and some are not stored. -/
def Brings [Digests] (known : Headers) (headers : List BlockHeader) : Prop :=
  ∃ new, new ≠ [] ∧ Grows .mainnet known new ∧
    new.map StoredHeader.header = unseen known [] headers

section

variable {S : Type} [HeaderStore S]

/-- A header is stored that was not. -/
def StoresNew (s s' : S) : Prop := ∃ hash, getHeader s hash = none ∧ getHeader s' hash ≠ none

theorem not_storesNew_of_view {s s' : S} (h : view s' = view s) : ¬StoresNew s s' := by
  rintro ⟨hash, hnone, hstored⟩
  have hget : getHeader s' = getHeader s := congrArg MemoryHeaderStore.headers h
  exact hstored (hget ▸ hnone)

theorem StoresNew.mono {s s' s'' : S} (h : StoresNew s s')
    (hsub : Table.Sub (getHeader s') (getHeader s'')) : StoresNew s s'' := by
  obtain ⟨hash, hnone, hstored⟩ := h
  obtain ⟨stored, hs⟩ := Option.ne_none_iff_exists'.1 hstored
  exact ⟨hash, hnone, by simp [hsub _ _ hs]⟩

/-! ## Taking a batch in -/

section Ingest

variable [LawfulHeaderStore S] [Digests] {s : S} {t : ChainTree}

/-- Recorded headers are added to those that are stored. -/
theorem recordHeaders_sub {policy : DifficultyPolicy} {accepted : List StoredHeader}
    (hgrows : Grows policy (getHeader s) accepted) :
    Table.Sub (getHeader s) (getHeader (recordHeaders accepted s).state) := by
  rcases eq_or_ne accepted [] with rfl | hne
  · exact .refl _
  obtain ⟨index, candidate, hmax, -⟩ := lastMaxByWork_spec hne
  cases hbest : bestHeader s with
  | error e =>
    rw [recordHeaders, if_neg (by simpa using hne), bind_error (reads_error hbest)]
    exact .refl _
  | ok best =>
    obtain ⟨s₁, hput, hview⟩ := LawfulHeaderStore.putHeaders_ok hgrows.nodup hgrows.fresh
    have hsub : Table.Sub (getHeader s) (getHeader s₁) := by
      rw [← view_headers s₁, hview]
      exact hgrows.sub
    rw [recordHeaders_eq hne hbest hmax hput]
    split_ifs
    · rwa [Keeps.bind (moveTip_keeps best accepted index candidate) (fun _ => .pure _) s₁]
    · exact hsub

theorem insertHeaders_sub (policy : DifficultyPolicy) (headers : List BlockHeader) (s : S) :
    Table.Sub (getHeader s) (getHeader (insertHeaders policy headers s).state) := by
  rcases insertHeaders_cases headers s with ⟨e, herror⟩ | ⟨accepted, hgrows, -, hs⟩
  · rw [herror]
    exact .refl _
  · rw [hs]
    exact recordHeaders_sub hgrows

omit [LawfulHeaderStore S] in
theorem ingestHeaders_state (policy : DifficultyPolicy) (headers : List BlockHeader) (s : S) :
    (ingestHeaders policy headers s).state = (insertHeaders policy headers s).state :=
  Keeps.state_bind (p := id) (fun _ => .bind (.reads _) fun _ => .pure _) s

/-- A batch that brings something advances the chain. -/
theorem storesNew_of_brings (h : Represents s t) {headers : List BlockHeader}
    (hbrings : Brings t.headers headers) :
    StoresNew s (ingestHeaders .mainnet headers s).state := by
  obtain ⟨new, hne, hgrows, hmap⟩ := hbrings
  rw [← h.getHeader_eq] at hgrows hmap
  obtain ⟨s₁, hput, hview⟩ := LawfulHeaderStore.putHeaders_ok hgrows.nodup hgrows.fresh
  obtain ⟨first, rest, rfl⟩ := List.exists_cons_of_ne_nil hne
  rw [ingestHeaders_state, insertHeaders_of_grows hgrows hmap]
  refine ⟨first.hash, hgrows.fresh first List.mem_cons_self, ?_⟩
  rw [recordHeaders_headers h hput hne, ← view_headers s₁, hview]
  have hget := hgrows.get (List.mem_cons_self (a := first) (l := rest))
  rw [MemoryHeaderStore.put_headers, view_headers]
  exact Option.ne_none_iff_exists'.2 ⟨first, hget⟩

omit [LawfulHeaderStore S] in
/-- A batch that brings nothing leaves the chain, and ends the loop. -/
theorem ingestHeaders_of_not_brings (h : Represents s t) {headers : List BlockHeader}
    (hbrings : ¬Brings t.headers headers) :
    view (ingestHeaders .mainnet headers s).state = view s ∧
      ∀ batch s', ingestHeaders .mainnet headers s = .ok batch s' → batch.accepted = 0 := by
  rw [ingestHeaders_state]
  rcases insertHeaders_cases headers s with ⟨e, herror⟩ | ⟨accepted, hgrows, hmap, hs⟩
  · refine ⟨by rw [herror]; rfl, fun batch s' hbatch => ?_⟩
    rw [ingestHeaders, bind_error herror] at hbatch
    cases hbatch
  · rw [h.getHeader_eq] at hgrows hmap
    obtain rfl : accepted = [] := by
      by_contra hne
      exact hbrings ⟨accepted, hne, hgrows, hmap⟩
    refine ⟨by rw [hs]; rfl, fun batch s' hbatch => ?_⟩
    rw [ingestHeaders, bind_ok (hs.trans (rfl : recordHeaders [] s = .ok [] s))] at hbatch
    obtain ⟨best, s₁, -, hbatch⟩ := run_bind_eq_ok.1 hbatch
    cases hbatch
    rfl

end Ingest

/-- What is stored stays so. -/
def KeepsHeaders (s s' : SyncState S) : Prop :=
  Table.Sub (getHeader s.chain) (getHeader s'.chain)

theorem KeepsHeaders.of_chain_eq {s s' : SyncState S} (h : s'.chain = s.chain) :
    KeepsHeaders s s' := by
  rw [KeepsHeaders, h]
  exact .refl _

theorem KeepsHeaders.trans {s₁ s₂ s₃ : SyncState S} (h : KeepsHeaders s₁ s₂)
    (h' : KeepsHeaders s₂ s₃) : KeepsHeaders s₁ s₃ := Table.Sub.trans h h'

/-! ## One batch -/

section Batch

variable [Digests] {P : Type} [HeaderPeerClient P] (limit : ℕ) (runner : HeaderSyncRunner P)
  (config : RacingConfig) (now : ℕ)

omit [HeaderStore S] [Digests] in
theorem modifyPeers_keeps (change : PeerManager → PeerManager) :
    Keeps SyncState.chain (modifyPeers (S := S) change) := fun _ => rfl

omit [HeaderStore S] [Digests] [HeaderPeerClient P] in
theorem persistPeerManager_keeps :
    Keeps SyncState.chain (persistPeerManager (S := S) runner) := .reads _

omit [HeaderStore S] [Digests] in
theorem readsChain_ok {α : Type} {f : S → Except ChainError α} {s : SyncState S} {a : α}
    (h : f s.chain = .ok a) : readsChain f s = .ok a s := by
  refine reads_ok ?_
  rw [h]
  rfl

omit [HeaderStore S] [Digests] in
theorem readsChain_error {α : Type} {f : S → Except ChainError α} {s : SyncState S}
    {e : ChainError} (h : f s.chain = .error e) : readsChain f s = .error (.chain e) s := by
  refine reads_error ?_
  rw [h]
  rfl

/-- The chain is taken to that of the ingestion. -/
theorem tryIngest_eq (policy : DifficultyPolicy) (headers : List BlockHeader) (s : SyncState S) :
    ∃ result, tryIngest policy headers s =
        .ok result { s with chain := (ingestHeaders policy headers s.chain).state } ∧
      ∀ batch, result = .ok batch → ∃ s', ingestHeaders policy headers s.chain = .ok batch s' := by
  rw [tryIngest]
  cases hingest : ingestHeaders policy headers s.chain with
  | ok batch chain =>
    refine ⟨.ok batch, rfl, fun batch' heq => ?_⟩
    cases heq
    exact ⟨chain, rfl⟩
  | error e chain => exact ⟨.error e, rfl, fun batch heq => by cases heq⟩

/-- The peers when the height of the winner has been observed can be stored. -/
def Saves (runner : HeaderSyncRunner P) (now : ℕ) (peers : PeerManager) (address : SocketAddr)
    (height : ℕ) : Prop :=
  runner.saveManager (peers.recordObservedHeight address height now) = .ok ()

variable (policy : DifficultyPolicy) {address : SocketAddr} {height : ℕ}
  (headers : List BlockHeader) (result : HeaderSyncRunResult) {s : SyncState S}

omit [HeaderPeerClient P] in
/-- A batch that is won changes the chain as ingesting the headers does; the loop goes on only when
    that has accepted some. -/
theorem takeBatch_of_saves (hsaves : Saves runner now s.peers address height) :
    (takeBatch policy runner now address height headers result s).state.chain =
        (ingestHeaders policy headers s.chain).state ∧
      ∀ result' s', takeBatch policy runner now address height headers result s =
          .ok (.next result') s' →
        ∃ batch chain, ingestHeaders policy headers s.chain = .ok batch chain ∧
          batch.accepted ≠ 0 := by
  obtain ⟨s₁, hs₁⟩ : ∃ s₁, s₁ =
      { s with peers := s.peers.recordObservedHeight address height now } := ⟨_, rfl⟩
  have hmodify : modifyPeers (fun peers => peers.recordObservedHeight address height now) s =
      .ok () s₁ := by rw [hs₁]; rfl
  have hpersist : persistPeerManager runner s₁ = .ok () s₁ := reads_ok (by rw [hs₁, hsaves]; rfl)
  have hchain : s₁.chain = s.chain := by rw [hs₁]
  rw [takeBatch, bind_ok hmodify, bind_ok hpersist, ← hchain]
  split_ifs with hempty
  · rw [List.isEmpty_iff] at hempty
    subst hempty
    refine ⟨?_, fun result' s' hrun => ?_⟩
    · rw [ingestHeaders_state]
      exact Keeps.bind (modifyPeers_keeps _)
        (fun _ => .bind (persistPeerManager_keeps _) fun _ => .pure _) s₁
    · obtain ⟨_, s₂, -, hrun⟩ := run_bind_eq_ok.1 hrun
      obtain ⟨_, s₃, -, hrun⟩ := run_bind_eq_ok.1 hrun
      cases hrun
  · obtain ⟨outcome, htry, hok⟩ := tryIngest_eq policy headers s₁
    rw [bind_ok htry]
    cases outcome with
    | error e =>
      refine ⟨?_, fun result' s' hrun => ?_⟩
      · refine Keeps.bind (modifyPeers_keeps _) (fun _ => .bind (persistPeerManager_keeps _)
          fun _ => ?_) _
        cases e with
        | storage message => exact fun _ => rfl
        | missingBestHeader => exact fun _ => rfl
        | _ => exact .pure _
      · obtain ⟨_, s₂, -, hrun⟩ := run_bind_eq_ok.1 hrun
        obtain ⟨_, s₃, -, hrun⟩ := run_bind_eq_ok.1 hrun
        cases e <;> cases hrun
    | ok batch =>
      obtain ⟨chain, hingest⟩ := hok batch rfl
      refine ⟨?_, fun result' s' hrun => ⟨batch, chain, hingest, fun hzero => ?_⟩⟩
      · refine Keeps.bind (modifyPeers_keeps _) (fun _ => .bind (persistPeerManager_keeps _)
          fun _ => ?_) _
        exact .ite (.pure _) (.pure _)
      · obtain ⟨_, s₂, -, hrun⟩ := run_bind_eq_ok.1 hrun
        obtain ⟨_, s₃, -, hrun⟩ := run_bind_eq_ok.1 hrun
        rw [if_pos (.inr hzero)] at hrun
        cases hrun

omit [HeaderPeerClient P] in
/-- A batch whose winner cannot be stored ends the round, and leaves the chain. -/
theorem takeBatch_of_not_saves (hsaves : ¬Saves runner now s.peers address height) :
    ∃ e s', takeBatch policy runner now address height headers result s = .error e s' ∧
      s'.chain = s.chain := by
  obtain ⟨s₁, hs₁⟩ : ∃ s₁, s₁ =
      { s with peers := s.peers.recordObservedHeight address height now } := ⟨_, rfl⟩
  have hmodify : modifyPeers (fun peers => peers.recordObservedHeight address height now) s =
      .ok () s₁ := by rw [hs₁]; rfl
  rw [takeBatch, bind_ok hmodify]
  cases hsave : runner.saveManager (s.peers.recordObservedHeight address height now) with
  | ok u => exact absurd hsave hsaves
  | error e =>
    have hpersist : persistPeerManager runner s₁ = .error (.p2p e) s₁ :=
      reads_error (by rw [hs₁, hsave]; rfl)
    exact ⟨_, _, bind_error hpersist, by rw [hs₁]⟩

omit [HeaderStore S] [Digests] [HeaderPeerClient P] in
theorem takeFailures_keeps (failures : List HeaderPeerFailure) :
    Keeps SyncState.chain (takeFailures (S := S) runner failures result) :=
  .bind (modifyPeers_keeps _) fun _ => .bind (persistPeerManager_keeps _) fun _ => .pure _

variable (race : HeaderRace P)

/-- The first answer of a batch brings something new, and can be stored. -/
def Wins (s : SyncState S) (locator : List Hash) : Prop :=
  ∃ address height headers,
    race.firstAnswer (config.candidates now s.peers) locator runner.config.stop =
        some (address, height, headers) ∧
      Brings (getHeader s.chain) headers ∧ Saves runner now s.peers address height

/-- The first answer of a batch is taken in; without one the round ends, and leaves the chain. -/
theorem racingBatch_cases {locator : List Hash}
    (hlocator : locatorWithLimit s.chain limit = .ok locator) :
    (∃ address height headers result',
      race.firstAnswer (config.candidates now s.peers) locator runner.config.stop =
          some (address, height, headers) ∧
        racingBatch policy limit runner config now race result s =
          takeBatch policy runner now address height headers result' s) ∨
      race.firstAnswer (config.candidates now s.peers) locator runner.config.stop = none ∧
        (racingBatch policy limit runner config now race result s).state.chain = s.chain ∧
        ∀ result' s',
          racingBatch policy limit runner config now race result s ≠ .ok (.next result') s' := by
  have hget : (get : EStateM SyncError (SyncState S) (SyncState S)) s = .ok s s := rfl
  have hread : readsChain (fun s => locatorWithLimit s limit) s = .ok locator s :=
    readsChain_ok hlocator
  have hrace := race.raceTcpHeaderBatch_spec (config.candidates now s.peers) locator
    runner.config.stop
  rw [racingBatch, bind_ok hget]
  cases hfirst : race.firstAnswer (config.candidates now s.peers) locator runner.config.stop with
  | some winner =>
    obtain ⟨address, height, headers⟩ := winner
    rw [hfirst] at hrace
    have hmem := (HeaderRace.of_firstAnswer hfirst).1
    rw [if_neg (by simpa using List.ne_nil_of_mem hmem), bind_ok hread, hrace]
    exact .inl ⟨address, height, headers, _, rfl, rfl⟩
  | none =>
    rw [hfirst] at hrace
    obtain ⟨failures, hrace⟩ := hrace
    refine .inr ⟨rfl, ?_⟩
    split_ifs
    · exact ⟨rfl, fun result' s' hrun => by cases hrun⟩
    · rw [bind_ok hread, hrace]
      refine ⟨takeFailures_keeps runner _ failures s, fun result' s' hrun => ?_⟩
      obtain ⟨_, s₁, -, hrun⟩ := run_bind_eq_ok.1 hrun
      obtain ⟨_, s₂, -, hrun⟩ := run_bind_eq_ok.1 hrun
      cases hrun

variable [LawfulHeaderStore S]

/-- A batch leaves the headers that are stored. -/
theorem racingBatch_evolves :
    Evolves KeepsHeaders (racingBatch (S := S) policy limit runner config now race result) := by
  intro s
  cases hlocator : locatorWithLimit s.chain limit with
  | error e =>
    have hkeeps : (racingBatch policy limit runner config now race result s).state.chain =
        s.chain := by
      have hget : (get : EStateM SyncError (SyncState S) (SyncState S)) s = .ok s s := rfl
      have hread : readsChain (fun s => locatorWithLimit s limit) s = .error (.chain e) s :=
        readsChain_error hlocator
      rw [racingBatch, bind_ok hget]
      split_ifs
      · rfl
      · rw [bind_error hread]
        rfl
    exact .of_chain_eq hkeeps
  | ok locator =>
    rcases racingBatch_cases limit runner config now policy result race hlocator with
      ⟨address, height, headers, result', -, hrun⟩ | ⟨-, hkeeps, -⟩
    · rw [hrun]
      by_cases hsaves : Saves runner now s.peers address height
      · rw [KeepsHeaders, (takeBatch_of_saves runner now policy headers result' hsaves).1,
          ingestHeaders_state]
        exact insertHeaders_sub policy headers s.chain
      · obtain ⟨e, s', herror, hchain⟩ := takeBatch_of_not_saves runner now policy headers
          result' hsaves
        rw [herror]
        exact .of_chain_eq hchain
    · exact .of_chain_eq hkeeps

variable {t : ChainTree} {locator : List Hash}

/-- A batch that is won advances the chain. -/
theorem racingBatch_of_wins (h : Represents s.chain t)
    (hlocator : locatorWithLimit s.chain limit = .ok locator)
    (hwins : Wins runner config now race s locator) :
    StoresNew s.chain
      (racingBatch .mainnet limit runner config now race result s).state.chain := by
  obtain ⟨address, height, headers, hfirst, hbrings, hsaves⟩ := hwins
  rcases racingBatch_cases limit runner config now .mainnet result race hlocator with
    ⟨address', height', headers', result', hfirst', hrun⟩ | ⟨hnone, -⟩
  · rw [hfirst, Option.some.injEq, Prod.mk.injEq, Prod.mk.injEq] at hfirst'
    obtain ⟨rfl, rfl, rfl⟩ := hfirst'
    rw [hrun, (takeBatch_of_saves runner now .mainnet headers result' hsaves).1]
    exact storesNew_of_brings h (h.getHeader_eq ▸ hbrings)
  · rw [hfirst] at hnone
    cases hnone

omit [LawfulHeaderStore S] in
/-- A batch that is not won leaves the chain, and ends the round. -/
theorem racingBatch_of_not_wins (h : Represents s.chain t)
    (hlocator : locatorWithLimit s.chain limit = .ok locator)
    (hwins : ¬Wins runner config now race s locator) :
    view (racingBatch .mainnet limit runner config now race result s).state.chain =
        view s.chain ∧
      ∀ result' s',
        racingBatch .mainnet limit runner config now race result s ≠ .ok (.next result') s' := by
  rcases racingBatch_cases limit runner config now .mainnet result race hlocator with
    ⟨address, height, headers, result', hfirst, hrun⟩ | ⟨-, hkeeps, hnext⟩
  · rw [hrun]
    by_cases hsaves : Saves runner now s.peers address height
    · have hbrings : ¬Brings t.headers headers := fun hbrings =>
        hwins ⟨address, height, headers, hfirst, h.getHeader_eq ▸ hbrings, hsaves⟩
      obtain ⟨hview, hzero⟩ := ingestHeaders_of_not_brings h hbrings
      obtain ⟨hchain, hnext⟩ := takeBatch_of_saves runner now .mainnet headers result' hsaves
      refine ⟨by rw [hchain, hview], fun result'' s' heq => ?_⟩
      obtain ⟨batch, chain, hingest, hne⟩ := hnext result'' s' heq
      exact hne (hzero batch chain hingest)
    · obtain ⟨e, s', herror, hchain⟩ := takeBatch_of_not_saves runner now .mainnet headers
        result' hsaves
      rw [herror]
      exact ⟨congrArg view hchain, fun result'' s'' heq => by cases heq⟩
  · exact ⟨congrArg view hkeeps, hnext⟩

end Batch

/-! ## The round -/

section Round

variable [Digests] {P : Type} [HeaderPeerClient P] (limit : ℕ) (runner : HeaderSyncRunner P)
  (config : RacingConfig) (now : ℕ) (races : ℕ → HeaderRace P)

/-- The batches of the loop that are begun, by their numbers, each with the state it finds. -/
def racingStarts : ℕ → ℕ → HeaderSyncRunResult → SyncState S → List (ℕ × SyncState S)
  | 0, _, _, _ => []
  | batches + 1, index, result, s =>
    (index, s) ::
      match racingBatch .mainnet limit runner config now (races index) result s with
      | .ok (.next result) s' => racingStarts batches (index + 1) result s'
      | _ => []

/-- The batches of a round. -/
def roundStarts (s : SyncState S) : List (ℕ × SyncState S) :=
  racingStarts limit runner config now races
    (config.maxBatches runner.config.maxHeaderBatchesPerPeer) 0 .empty s

/-- The height is above that of the best header. -/
def PeerAhead (s : S) (height : ℕ) : Prop :=
  ∀ best, bestHeader s = .ok (some best) → best.height < height

/-- The headers that a peer answers with do not depend on whether it has been asked for addresses
    before. -/
def AnswersAnyway (P : Type) [HeaderPeerClient P] : Prop :=
  ∀ (peer : P) (locator : List Hash) (stop : Hash) (headers : List BlockHeader),
    (∃ peer', requestHeaders locator stop (requestAddresses peer).state = .ok headers peer') →
      ∃ peer', requestHeaders locator stop peer = .ok headers peer'

/-- What is asked of a racing round that begins in `s`. -/
structure Unstalled (s : SyncState S) : Prop where
  /-- Only peers that are ahead are sent `getheaders`. -/
  ahead : ∀ start ∈ roundStarts limit runner config now races s, ∀ locator,
    locatorWithLimit start.2.chain limit = .ok locator →
      ∀ height ∈ (races start.1).requests (config.candidates now start.2.peers) locator
        runner.config.stop, PeerAhead start.2.chain height
  /-- When a candidate offers new headers, some are stored. -/
  advances : ∀ locator, locatorWithLimit s.chain limit = .ok locator →
    ∀ address ∈ config.candidates now s.peers, ∀ height headers,
      (races 0).answer locator runner.config.stop address = some (height, headers) →
        Brings (getHeader s.chain) headers →
          StoresNew s.chain (syncOnceRacing .mainnet limit runner config now races s).state.chain
  /-- Some are stored when asking the candidates one after the other stores some. -/
  sequential : AnswersAnyway P →
    StoresNew s.chain (syncPeers .mainnet limit { runner with connect := (races 0).connect } now
      (config.candidates now s.peers) .empty s).state.chain →
        StoresNew s.chain (syncOnceRacing .mainnet limit runner config now races s).state.chain

/-- What a racing round from `s` has to meet for that. -/
structure Fortunate (s : SyncState S) : Prop where
  /-- In every batch each candidate that completes the handshake is ahead. -/
  ahead : ∀ start ∈ roundStarts limit runner config now races s, ∀ locator,
    locatorWithLimit start.2.chain limit = .ok locator →
      ∀ address ∈ config.candidates now start.2.peers, ∀ height,
        (races start.1).Shakes address height → PeerAhead start.2.chain height
  /-- The first answer to the first batch brings something new and can be stored, or no answer
      brings anything new. -/
  first : ∀ locator, locatorWithLimit s.chain limit = .ok locator →
    Wins runner config now (races 0) s locator ∨
      ∀ address ∈ config.candidates now s.peers, ∀ height headers,
        (races 0).answer locator runner.config.stop address = some (height, headers) →
          ¬Brings (getHeader s.chain) headers

variable {limit runner config now races} [LawfulHeaderStore S] {s : SyncState S} {t : ChainTree}

omit [HeaderStore S] [Digests] [HeaderPeerClient P] [LawfulHeaderStore S] in
/-- The end of the loop keeps the chain. -/
theorem finish_keeps (result : HeaderSyncRunResult) :
    Keeps (SyncState.chain (S := S)) (do
      persistPeerManager runner
      return result) :=
  .bind (persistPeerManager_keeps runner) fun _ => .pure _

/-- The loop leaves the headers that are stored. -/
theorem racingBatches_evolves (batches index : ℕ) (result : HeaderSyncRunResult) :
    Evolves (KeepsHeaders (S := S))
      (racingBatches .mainnet limit runner config now races batches index result) := by
  have hfinish (result : HeaderSyncRunResult) : Evolves (KeepsHeaders (S := S)) (do
      persistPeerManager runner
      return result) := fun s => .of_chain_eq (finish_keeps result s)
  induction batches generalizing index result with
  | zero => exact hfinish result
  | succ batches ih =>
    refine Evolves.bind (R := KeepsHeaders) (fun _ _ _ => KeepsHeaders.trans)
      (racingBatch_evolves limit runner config now .mainnet result (races index)) fun flow => ?_
    cases flow with
    | next result => exact ih (index + 1) result
    | stop result => exact hfinish result
    | return_ result => exact .pure (fun _ => .of_chain_eq rfl) result

omit [Digests] [LawfulHeaderStore S] [HeaderStore S] [HeaderPeerClient P] in
theorem maxBatches_pos (config : RacingConfig) (maxHeaderBatchesPerPeer : ℕ) :
    0 < config.maxBatches maxHeaderBatchesPerPeer := by
  rw [RacingConfig.maxBatches, lt_min_iff]
  refine ⟨by norm_num, Nat.mul_pos ?_ ?_⟩
  · exact Nat.lt_of_lt_of_le one_pos (le_max_right _ 1)
  · exact Nat.lt_of_lt_of_le one_pos (le_max_right _ 1)

/-- A round advances the chain exactly when its first batch is won. -/
theorem syncOnceRacing_storesNew_iff (h : Represents s.chain t) {locator : List Hash}
    (hlocator : locatorWithLimit s.chain limit = .ok locator) :
    StoresNew s.chain (syncOnceRacing .mainnet limit runner config now races s).state.chain ↔
      Wins runner config now (races 0) s locator := by
  obtain ⟨batches, hbatches⟩ := Nat.exists_eq_succ_of_ne_zero
    (maxBatches_pos config runner.config.maxHeaderBatchesPerPeer).ne'
  rw [syncOnceRacing, hbatches, Nat.succ_eq_add_one, racingBatches]
  constructor
  · intro hadvances
    by_contra hwins
    obtain ⟨hview, hnext⟩ := racingBatch_of_not_wins limit runner config now .empty (races 0) h
      hlocator hwins
    refine not_storesNew_of_view ?_ hadvances
    -- The round ends behind the first batch.
    cases hrun : racingBatch .mainnet limit runner config now (races 0) .empty s with
    | error e s' =>
      rw [bind_error hrun]
      rwa [hrun] at hview
    | ok flow s' =>
      rw [hrun, Result.state_ok] at hview
      rw [bind_ok hrun, ← hview]
      cases flow with
      | next result => exact absurd hrun (hnext result s')
      | stop result =>
        exact congrArg view (finish_keeps result s')
      | return_ result => rfl
  · intro hwins
    have hfirst := racingBatch_of_wins limit runner config now .empty (races 0) h hlocator hwins
    refine hfirst.mono ?_
    cases hrun : racingBatch .mainnet limit runner config now (races 0) .empty s with
    | error e s' =>
      rw [bind_error hrun]
      exact .refl _
    | ok flow s' =>
      rw [bind_ok hrun]
      cases flow with
      | next result => exact racingBatches_evolves batches 1 result s'
      | stop result => exact KeepsHeaders.of_chain_eq (finish_keeps result s')
      | return_ result => exact .refl _

/-! ## One peer after the other -/

omit [LawfulHeaderStore S] in
/-- The locator of every store that represents the tree. -/
theorem exists_locator (t : ChainTree) (limit : ℕ) :
    ∃ locator, ∀ s : S, Represents s t → locatorWithLimit s limit = .ok locator := by
  cases htip : t.tip with
  | none =>
    refine ⟨[], fun s h => ?_⟩
    rw [locatorWithLimit, h.bestHeader_eq, htip]
    rfl
  | some tip => exact ⟨_, fun s h => h.locatorWithLimit_eq htip limit⟩

/-- A store that represents the tree goes on to represent it. -/
def Stays (t : ChainTree) (s s' : SyncState S) : Prop :=
  Represents s.chain t → Represents s'.chain t

omit [LawfulHeaderStore S] in
theorem Stays.refl (s : SyncState S) : Stays t s s := id

omit [LawfulHeaderStore S] in
theorem Stays.trans (s₁ s₂ s₃ : SyncState S) (h : Stays t s₁ s₂) (h' : Stays t s₂ s₃) :
    Stays t s₁ s₃ := fun hrep => h' (h hrep)

omit [LawfulHeaderStore S] in
theorem Stays.of_keeps {α : Type} {x : EStateM SyncError (SyncState S) α}
    (h : Keeps SyncState.chain x) : Evolves (Stays t) x := by
  intro s hrep
  rwa [h s]

omit [HeaderStore S] [LawfulHeaderStore S] [Digests] in
theorem discoverAddresses_keeps (peer : P) :
    Keeps (SyncState.chain (S := S)) (discoverAddresses runner peer) := by
  rw [discoverAddresses]
  refine .ite ?_ (.pure _)
  cases requestAddresses peer with
  | error e peer' => exact .pure _
  | ok discovered peer' =>
    exact .bind (modifyPeers_keeps _) fun _ => .bind (persistPeerManager_keeps runner) fun _ =>
      .pure _

omit [HeaderStore S] [Digests] [LawfulHeaderStore S] [HeaderPeerClient P] in
theorem finishSync_keeps (address : SocketAddr) (height accepted : ℕ)
    (best : Option StoredHeader) :
    Keeps (SyncState.chain (S := S)) (finishSync runner address now height accepted best) :=
  .bind (modifyPeers_keeps _) fun _ => .bind (persistPeerManager_keeps runner) fun _ => .pure _

variable {locator : List Hash}
  (hlocator : ∀ s : S, Represents s t → locatorWithLimit s limit = .ok locator)

include hlocator

omit [LawfulHeaderStore S] in
/-- A peer whose headers bring nothing new leaves the chain. -/
theorem headerBatches_stays {peer : P} (address : SocketAddr)
    (hno : ∀ headers peer', requestHeaders locator runner.config.stop peer = .ok headers peer' →
      ¬Brings t.headers headers) (batches accepted : ℕ) (best : Option StoredHeader) :
    Evolves (Stays (S := S) t)
      (headerBatches .mainnet limit runner address now batches peer accepted best) := by
  intro s h
  cases batches with
  | zero => exact h
  | succ batches =>
    rw [headerBatches, bind_ok (readsChain_ok (hlocator s.chain h))]
    cases hrequest : requestHeaders locator runner.config.stop peer with
    | error e peer' => exact h
    | ok headers peer' =>
      dsimp only
      split_ifs
      · exact h
      · obtain ⟨hview, hzero⟩ := ingestHeaders_of_not_brings h (hno headers peer' hrequest)
        obtain ⟨outcome, htry, hok⟩ := tryIngest_eq .mainnet headers s
        rw [bind_ok htry]
        have hrep : Represents (ingestHeaders .mainnet headers s.chain).state t := hview.trans h
        cases outcome with
        | ok batch =>
          obtain ⟨chain, hingest⟩ := hok batch rfl
          dsimp only
          rw [if_pos (.inr (hzero batch chain hingest))]
          exact hrep
        | error e => cases e <;> exact hrep

omit [LawfulHeaderStore S] in
/-- A peer that offers nothing new leaves the chain. -/
theorem syncPeer_stays (hanyway : AnswersAnyway P) {race : HeaderRace P}
    (hrace : runner.connect = race.connect) {address : SocketAddr}
    (hno : ∀ height headers,
      race.answer locator runner.config.stop address = some (height, headers) →
        ¬Brings t.headers headers) :
    Evolves (Stays (S := S) t) (syncPeer .mainnet limit runner address now) := by
  rw [syncPeer]
  rw [HeaderRace.answer, ← hrace] at hno
  cases hconnect : runner.connect address with
  | error e => exact .of_keeps (.bind (modifyPeers_keeps _) fun _ => .pure _)
  | ok peer =>
    rw [hconnect] at hno
    dsimp only at hno ⊢
    cases hshake : handshake peer with
    | error e peer' => exact .of_keeps (.bind (modifyPeers_keeps _) fun _ => .pure _)
    | ok height peer =>
      rw [hshake] at hno
      dsimp only at hno ⊢
      refine .bind Stays.trans (.of_keeps (modifyPeers_keeps _)) fun _ => ?_
      refine .bind Stays.trans (.of_keeps (persistPeerManager_keeps runner)) fun _ => ?_
      refine .bind_of_ok Stays.trans (.of_keeps (discoverAddresses_keeps peer))
        fun s peer' s' hdiscover => ?_
      -- The headers are asked for after the addresses, or without them.
      have hanswers : ∀ headers peer'',
          requestHeaders locator runner.config.stop peer' = .ok headers peer'' →
            ¬Brings t.headers headers := by
        intro headers peer'' hrequest
        obtain ⟨last, hasked⟩ : ∃ last,
            requestHeaders locator runner.config.stop peer = .ok headers last := by
          rcases (discoverAddresses_cases runner hdiscover).2 with rfl | rfl
          · exact ⟨peer'', hrequest⟩
          · exact hanyway peer locator runner.config.stop headers ⟨peer'', hrequest⟩
        exact hno height headers (by rw [hasked])
      refine .bind Stays.trans (.of_keeps (.reads _)) fun best => ?_
      refine .ite (.of_keeps (finishSync_keeps address height 0 best)) ?_
      refine .bind Stays.trans
        (headerBatches_stays hlocator address hanswers _ 0 best) fun outcome => ?_
      cases outcome with
      | error failure => exact .of_keeps (.pure _)
      | ok reached =>
        exact .of_keeps (finishSync_keeps address height reached.1 reached.2)

omit [LawfulHeaderStore S] in
/-- Asking peers that offer nothing new, one after the other, leaves the chain. -/
theorem syncPeers_stays (hanyway : AnswersAnyway P) {race : HeaderRace P}
    (hrace : runner.connect = race.connect) {addresses : List SocketAddr}
    (hno : ∀ address ∈ addresses, ∀ height headers,
      race.answer locator runner.config.stop address = some (height, headers) →
        ¬Brings t.headers headers) (result : HeaderSyncRunResult) :
    Evolves (Stays (S := S) t) (syncPeers .mainnet limit runner now addresses result) := by
  induction addresses generalizing result with
  | nil => exact .of_keeps (.pure _)
  | cons address addresses ih =>
    rw [List.forall_mem_cons] at hno
    rw [syncPeers]
    refine .bind Stays.trans (syncPeer_stays hlocator hanyway hrace hno.1)
      fun outcome => ?_
    cases outcome with
    | success peerResult => exact ih hno.2 _
    | failure failure => exact ih hno.2 _

end Round

section

variable [LawfulHeaderStore S] [Digests] {P : Type} [HeaderPeerClient P] (limit : ℕ)
  (runner : HeaderSyncRunner P) (config : RacingConfig) (now : ℕ) (races : ℕ → HeaderRace P)

/-- A racing round is not stalled exactly when every candidate that completes a handshake is ahead,
    and the first answer is one of those that bring something new, if there are such. -/
theorem syncOnceRacing_unstalled_iff {s : SyncState S} {t : ChainTree}
    (h : Represents s.chain t) :
    Unstalled limit runner config now races s ↔ Fortunate limit runner config now races s := by
  obtain ⟨locator, hlocator⟩ := exists_locator (S := S) t limit
  have hs := hlocator s.chain h
  constructor
  · intro hunstalled
    refine ⟨fun start hstart locator' hlocator' address hmem height hshakes => ?_,
      fun locator' hlocator' => ?_⟩
    · exact hunstalled.ahead start hstart locator' hlocator' height
        (HeaderRace.mem_requests_iff.2 ⟨address, hmem, hshakes⟩)
    · by_contra hnot
      rw [not_or] at hnot
      obtain ⟨hwins, hbrings⟩ := hnot
      simp only [not_forall, not_not] at hbrings
      obtain ⟨address, hmem, height, headers, hanswer, hbrings⟩ := hbrings
      refine hwins ((syncOnceRacing_storesNew_iff h hlocator').1 ?_)
      exact hunstalled.advances locator' hlocator' address hmem height headers hanswer hbrings
  · intro hfortunate
    refine ⟨fun start hstart locator' hlocator' height hmem => ?_,
      fun locator' hlocator' address hmem height headers hanswer hbrings => ?_,
      fun hanyway hadvances => ?_⟩
    · obtain ⟨address, hmem, hshakes⟩ := HeaderRace.mem_requests_iff.1 hmem
      exact hfortunate.ahead start hstart locator' hlocator' address hmem height hshakes
    · refine (syncOnceRacing_storesNew_iff h hlocator').2 ?_
      rcases hfortunate.first locator' hlocator' with hwins | hnone
      · exact hwins
      · exact absurd hbrings (hnone address hmem height headers hanswer)
    · refine (syncOnceRacing_storesNew_iff h hs).2 ?_
      rcases hfortunate.first locator hs with hwins | hnone
      · exact hwins
      · -- Asking one after the other would not have stored anything either.
        rw [h.getHeader_eq] at hnone
        have hstays := @syncPeers_stays S _ _ P _ limit
          { runner with connect := (races 0).connect } now t locator hlocator hanyway (races 0) rfl
          _ hnone .empty s h
        exact absurd hadvances (not_storesNew_of_view (hstays.trans h.symm))

end

end

/-! ## A stale peer that is fast -/

namespace RacingSample

open Sample

/-- A peer with the genesis block alone, or with a block on it. -/
inductive RacingPeer
  | stale
  | ahead

instance : HeaderPeerClient RacingPeer where
  handshake peer := match peer with
    | .stale => .ok 0 .stale
    | .ahead => .ok 1 .ahead
  requestHeaders _ _ peer := match peer with
    | .stale => .ok [] .stale
    | .ahead => .ok ((entriesTo true spaced 1).map StoredHeader.header) .ahead

/-- `10.0.0.1:12038`. -/
def staleAddress : SocketAddr := ⟨.ofOctets 10 0 0 1, 12038⟩

/-- `10.1.0.1:12038`. -/
def aheadAddress : SocketAddr := ⟨.ofOctets 10 1 0 1, 12038⟩

def runner : HeaderSyncRunner RacingPeer where
  connect address := .ok (if address = staleAddress then .stale else .ahead)
  saveManager _ := .ok ()
  config :=
    { maxHeaderBatchesPerPeer := 1
      discoverPeers := false
      stop := .zero
      malformedBanSeconds := 86400 }

def config : RacingConfig where
  preferredPeers := 1
  parallelHeaderFetchPeers := 2

/-- The answer of the stale peer arrives before any other. -/
def race : HeaderRace RacingPeer where
  connect := runner.connect
  arrival addresses := addresses.filter (· = staleAddress) ++ addresses.filter (! · = staleAddress)
  perm addresses := List.filter_append_perm _ addresses

/-- A round from the genesis block, with some peers. -/
def start (addresses : List SocketAddr) : SyncState MemoryHeaderStore :=
  ⟨ChainTree.genesis.toStore, PeerManager.empty.seed addresses⟩

theorem represents_start (addresses : List SocketAddr) :
    Represents (start addresses).chain .genesis := rfl

theorem brings_ahead :
    Brings ChainTree.genesis.headers ((entriesTo true spaced 1).map StoredHeader.header) := by
  have hgrows : Grows .mainnet ChainTree.genesis.headers (entriesTo true spaced 1) :=
    grows_of_spaced (by norm_num)
  exact ⟨_, by decide, hgrows, hgrows.unseen_eq_self.symm⟩

theorem candidates_start :
    config.candidates 0 (start [staleAddress, aheadAddress]).peers =
      [staleAddress, aheadAddress] := by decide +kernel

theorem candidates_start_ahead :
    config.candidates 0 (start [aheadAddress]).peers = [aheadAddress] := by decide +kernel

theorem answer_ahead (locator : List Hash) (stop : Hash) :
    race.answer locator stop aheadAddress =
      some (1, (entriesTo true spaced 1).map StoredHeader.header) := rfl

/-- A round that only meets a peer that is ahead is not stalled. -/
theorem unstalled_ahead :
    Unstalled defaultLocatorLimit runner config 0 (fun _ => race) (start [aheadAddress]) := by
  refine (syncOnceRacing_unstalled_iff defaultLocatorLimit runner config 0 (fun _ => race)
    (represents_start [aheadAddress])).2 ⟨?_, fun locator _ => .inl ?_⟩
  · intro begun hbegun locator _ address hmem height hshakes best hbest
    obtain rfl : begun = (0, start [aheadAddress]) := by
      have hone : roundStarts defaultLocatorLimit runner config 0 (fun _ => race)
          (start [aheadAddress]) = [(0, start [aheadAddress])] := by
        rw [roundStarts, show config.maxBatches runner.config.maxHeaderBatchesPerPeer = 1 from rfl,
          racingStarts]
        split <;> rfl
      rwa [hone, List.mem_singleton] at hbegun
    rw [candidates_start_ahead, List.mem_singleton] at hmem
    subst hmem
    obtain ⟨peer, peer', hconnect, hshake⟩ := hshakes
    cases hconnect
    cases hshake
    rw [(represents_start _).bestHeader_eq, ChainTree.genesis_tip, Except.ok.injEq,
      Option.some.injEq] at hbest
    rw [← hbest]
    exact Nat.one_pos
  · refine ⟨aheadAddress, 1, _, ?_, brings_ahead, rfl⟩
    rw [HeaderRace.firstAnswer, candidates_start_ahead]
    rfl

/-- A stale peer that answers first, with no headers, ends the round: the block that the other
    candidate offers is not stored. -/
theorem exists_stalled :
    Reachable (start [staleAddress, aheadAddress]).chain ∧
      (∀ locator stop, ∃ headers, race.answer locator stop aheadAddress = some (1, headers) ∧
        Brings (getHeader (start [staleAddress, aheadAddress]).chain) headers) ∧
      ¬StoresNew (start [staleAddress, aheadAddress]).chain
        (syncOnceRacing .mainnet defaultLocatorLimit runner config 0 (fun _ => race)
          (start [staleAddress, aheadAddress])).state.chain ∧
      ¬Unstalled defaultLocatorLimit runner config 0 (fun _ => race)
        (start [staleAddress, aheadAddress]) := by
  have hrep := represents_start [staleAddress, aheadAddress]
  obtain ⟨locator, hlocator⟩ := exists_locator (S := MemoryHeaderStore) ChainTree.genesis
    defaultLocatorLimit
  have hstalled : ¬StoresNew (start [staleAddress, aheadAddress]).chain
      (syncOnceRacing .mainnet defaultLocatorLimit runner config 0 (fun _ => race)
        (start [staleAddress, aheadAddress])).state.chain := by
    rw [syncOnceRacing_storesNew_iff hrep (hlocator _ hrep)]
    rintro ⟨address, height, headers, hfirst, ⟨new, hne, -, hmap⟩, -⟩
    rw [HeaderRace.firstAnswer, candidates_start] at hfirst
    cases hfirst
    exact hne (List.map_eq_nil_iff.1 hmap)
  refine ⟨reachable_genesis, fun locator stop => ⟨_, answer_ahead locator stop, brings_ahead⟩,
    hstalled, fun hunstalled => hstalled ?_⟩
  exact hunstalled.advances locator (hlocator _ hrep) aheadAddress (by rw [candidates_start]; simp)
    1 _ (answer_ahead locator _) brings_ahead

end RacingSample

end Hns
