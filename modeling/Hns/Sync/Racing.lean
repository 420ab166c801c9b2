import Hns.Sync.Runner

/-!
# Racing for a batch of headers

`sync_once_racing_and_persist`: some peers are asked for the same batch of
headers at once, each by a worker of its own (`request_tcp_header_batch`), and
the first batch to arrive is taken; so it goes on, batch after batch, for as
long as the batches are full and bring something new.

A worker asks every peer that completes the handshake, whatever height the peer
advertises (`HeaderRace.mem_requests_iff`).
-/

namespace Hns

open Except EStateM HeaderStore HeaderPeerClient

/-! ## The candidates -/

/-- `Ord::cmp` of socket addresses. -/
def SocketAddr.compare (a b : SocketAddr) : Ordering :=
  match a.ip, b.ip with
  | .v4 x, .v4 y =>
    (Ord.compare (Octet.ofBE x.bytes) (Octet.ofBE y.bytes)).then (Ord.compare a.port b.port)
  | .v4 _, .v6 _ => .lt
  | .v6 _, .v4 _ => .gt
  | .v6 x, .v6 y =>
    (Ord.compare (Octet.ofBE x.bytes) (Octet.ofBE y.bytes)).then (Ord.compare a.port b.port)

inductive PeerAddressGroup
  | ipv4 (octets : List UInt8)
  | ipv6 (octets : List UInt8)
  deriving DecidableEq

def PeerAddressGroup.fromSocketAddr (address : SocketAddr) : PeerAddressGroup :=
  match address.ip with
  | .v4 octets => .ipv4 (octets.bytes.take 2)
  | .v6 octets => .ipv6 (octets.bytes.take 4)

def PeerState.isBanned (peer : PeerState) (now : ℕ) : Bool :=
  peer.bannedUntil.any fun until_ => now < until_

namespace PeerManager

/-- The order of `select_outbound`: low scores first, then great heights, then low addresses. -/
def compareOutbound (left right : PeerState) : Ordering :=
  ((Ord.compare left.score right.score).then
    (Ord.compare right.lastHeight left.lastHeight)).then (left.address.compare right.address)

/-- The first loop of `select_outbound`: one peer of each group. -/
def selectGroups (preferredCount : ℕ) :
    List PeerState → List PeerAddressGroup → List SocketAddr → List SocketAddr
  | [], _, selected => selected
  | peer :: peers, groups, selected =>
    if preferredCount ≤ selected.length then selected
    else
      let group := PeerAddressGroup.fromSocketAddr peer.address
      if group ∈ groups then selectGroups preferredCount peers groups selected
      else selectGroups preferredCount peers (group :: groups) (selected ++ [peer.address])

/-- The second loop of `select_outbound`: any other peers. -/
def selectOthers (preferredCount : ℕ) : List PeerState → List SocketAddr → List SocketAddr
  | [], selected => selected
  | peer :: peers, selected =>
    if preferredCount ≤ selected.length then selected
    else if peer.address ∈ selected then selectOthers preferredCount peers selected
    else selectOthers preferredCount peers (selected ++ [peer.address])

def selectOutbound (manager : PeerManager) (preferredCount now : ℕ) : List SocketAddr :=
  let peers := (manager.peers.filter fun peer => !peer.isBanned now).insertionSort
    fun left right => (compareOutbound left right).isLE
  selectOthers preferredCount peers (selectGroups preferredCount peers [] [])

end PeerManager

/-! ## The race -/

inductive HeaderRaceOutcome
  | success (address : SocketAddr) (remoteHeight : ℕ) (headers : List BlockHeader)
  | failure (failures : List HeaderPeerFailure)
  deriving DecidableEq

/-- `request_tcp_header_batch`, with the advertised height of the peer if `getheaders` is sent
    to it. -/
def requestTcpHeaderBatch {P : Type} [HeaderPeerClient P] (connect : SocketAddr → Except P2pError P)
    (address : SocketAddr) (locator : List Hash) (stop : Hash) : HeaderRaceOutcome × Option ℕ :=
  match connect address with
  | .error e => (.failure [⟨address, .connect, toString e⟩], none)
  | .ok peer =>
    match handshake peer with
    | .error e _ => (.failure [⟨address, .handshake, toString e⟩], none)
    | .ok remoteHeight peer =>
      match requestHeaders locator stop peer with
      | .error e _ => (.failure [⟨address, .headers, toString e⟩], some remoteHeight)
      | .ok headers _ => (.success address remoteHeight headers, some remoteHeight)

/-- What a race meets: the peers behind the addresses, and the order in which the workers are
    done. -/
structure HeaderRace (P : Type) where
  connect : SocketAddr → Except P2pError P
  arrival : List SocketAddr → List SocketAddr
  perm (addresses : List SocketAddr) : (arrival addresses).Perm addresses

/-- The loop of `race_tcp_header_batch`, over the outcomes as they arrive. -/
def firstSuccess : List HeaderRaceOutcome → List HeaderPeerFailure → HeaderRaceOutcome
  | [], failures => .failure failures
  | .success address remoteHeight headers :: _, _ => .success address remoteHeight headers
  | .failure batchFailures :: outcomes, failures => firstSuccess outcomes (failures ++ batchFailures)

namespace HeaderRace

variable {P : Type} [HeaderPeerClient P] (race : HeaderRace P)

/-- `race_tcp_header_batch`. -/
def raceTcpHeaderBatch (addresses : List SocketAddr) (locator : List Hash) (stop : Hash) :
    HeaderRaceOutcome :=
  firstSuccess ((race.arrival addresses).map fun address =>
    (requestTcpHeaderBatch race.connect address locator stop).1) []

/-- The advertised heights of the peers that the workers send `getheaders` to: the race does not
    end them. -/
def requests (addresses : List SocketAddr) (locator : List Hash) (stop : Hash) : List ℕ :=
  addresses.filterMap fun address => (requestTcpHeaderBatch race.connect address locator stop).2

/-- The peer completes the handshake, and advertises the height. -/
def Shakes (address : SocketAddr) (height : ℕ) : Prop :=
  ∃ peer peer', race.connect address = .ok peer ∧ handshake peer = .ok height peer'

/-- The height and the headers that a peer answers with. -/
def answer (locator : List Hash) (stop : Hash) (address : SocketAddr) :
    Option (ℕ × List BlockHeader) :=
  match race.connect address with
  | .error _ => none
  | .ok peer =>
    match handshake peer with
    | .error _ _ => none
    | .ok height peer =>
      match requestHeaders locator stop peer with
      | .error _ _ => none
      | .ok headers _ => some (height, headers)

/-- The first answer to arrive. -/
def firstAnswer (addresses : List SocketAddr) (locator : List Hash) (stop : Hash) :
    Option (SocketAddr × ℕ × List BlockHeader) :=
  (race.arrival addresses).findSome? fun address =>
    (race.answer locator stop address).map (Prod.mk address)

variable {race}

/-- A worker sends `getheaders` to every peer that completes the handshake. -/
theorem requestTcpHeaderBatch_snd {address : SocketAddr} {locator : List Hash} {stop : Hash}
    {height : ℕ} :
    (requestTcpHeaderBatch race.connect address locator stop).2 = some height ↔
      race.Shakes address height := by
  rw [requestTcpHeaderBatch, Shakes]
  cases race.connect address with
  | error e => simp
  | ok peer =>
    dsimp only
    cases hshake : handshake peer with
    | error e peer' => simp [hshake]
    | ok remoteHeight peer' =>
      dsimp only
      cases requestHeaders locator stop peer' with
      | error e peer'' => simp [hshake]
      | ok headers peer'' => simp [hshake]

theorem mem_requests_iff {addresses : List SocketAddr} {locator : List Hash} {stop : Hash}
    {height : ℕ} :
    height ∈ race.requests addresses locator stop ↔
      ∃ address ∈ addresses, race.Shakes address height := by
  rw [requests, List.mem_filterMap]
  simp only [requestTcpHeaderBatch_snd]

/-- What a worker is done with: the answer of its peer, or a failure. -/
theorem requestTcpHeaderBatch_fst (address : SocketAddr) (locator : List Hash) (stop : Hash) :
    match race.answer locator stop address with
    | some (height, headers) =>
      (requestTcpHeaderBatch race.connect address locator stop).1 = .success address height headers
    | none => ∃ failures,
      (requestTcpHeaderBatch race.connect address locator stop).1 = .failure failures := by
  rw [requestTcpHeaderBatch, answer]
  cases race.connect address with
  | error e => exact ⟨_, rfl⟩
  | ok peer =>
    dsimp only
    cases handshake peer with
    | error e peer' => exact ⟨_, rfl⟩
    | ok remoteHeight peer' =>
      dsimp only
      cases requestHeaders locator stop peer' with
      | error e peer'' => exact ⟨_, rfl⟩
      | ok headers peer'' => rfl

/-- The race is won by the first answer to arrive, whatever it is. -/
theorem raceTcpHeaderBatch_spec (addresses : List SocketAddr) (locator : List Hash) (stop : Hash) :
    match race.firstAnswer addresses locator stop with
    | some (address, height, headers) =>
      race.raceTcpHeaderBatch addresses locator stop = .success address height headers
    | none => ∃ failures, race.raceTcpHeaderBatch addresses locator stop = .failure failures := by
  rw [firstAnswer, raceTcpHeaderBatch]
  -- The failures so far do not matter.
  generalize ([] : List HeaderPeerFailure) = failures
  induction race.arrival addresses generalizing failures with
  | nil => exact ⟨failures, rfl⟩
  | cons address rest ih =>
    rw [List.map_cons, List.findSome?_cons]
    have hworker := @requestTcpHeaderBatch_fst _ _ race address locator stop
    cases hanswer : race.answer locator stop address with
    | none =>
      rw [hanswer] at hworker
      obtain ⟨batchFailures, hworker⟩ := hworker
      rw [hworker, Option.map_none, firstSuccess]
      exact ih _
    | some result =>
      rw [hanswer] at hworker
      rw [hworker, Option.map_some, firstSuccess]

/-- There is a first answer when there is one. -/
theorem exists_firstAnswer {addresses : List SocketAddr} {locator : List Hash} {stop : Hash}
    {address : SocketAddr} (hmem : address ∈ addresses) {height : ℕ} {headers : List BlockHeader}
    (hanswer : race.answer locator stop address = some (height, headers)) :
    ∃ result, race.firstAnswer addresses locator stop = some result := by
  rw [firstAnswer, ← Option.isSome_iff_exists, List.findSome?_isSome_iff]
  refine ⟨address, (race.perm addresses).mem_iff.2 hmem, ?_⟩
  rw [hanswer]
  rfl

/-- The first answer is that of a candidate. -/
theorem of_firstAnswer {addresses : List SocketAddr} {locator : List Hash} {stop : Hash}
    {address : SocketAddr} {height : ℕ} {headers : List BlockHeader}
    (h : race.firstAnswer addresses locator stop = some (address, height, headers)) :
    address ∈ addresses ∧ race.answer locator stop address = some (height, headers) := by
  obtain ⟨found, hmem, hfound⟩ := List.exists_of_findSome?_eq_some h
  obtain ⟨result, hanswer, hresult⟩ := Option.map_eq_some_iff.1 hfound
  cases hresult
  exact ⟨(race.perm addresses).mem_iff.1 hmem, hanswer⟩

end HeaderRace

/-! ## The round -/

structure HeaderSyncRunResult where
  attempted : ℕ
  successful : ℕ
  accepted : ℕ
  best : Option StoredHeader
  failures : List HeaderPeerFailure

def HeaderSyncRunResult.empty : HeaderSyncRunResult := ⟨0, 0, 0, none, []⟩

/-- The settings of a runner that only its racing rounds read. -/
structure RacingConfig where
  preferredPeers : ℕ
  parallelHeaderFetchPeers : ℕ

/-- How a batch of the loop ends: the loop goes on, stops, or returns at once. -/
inductive RacingFlow
  | next (result : HeaderSyncRunResult)
  | stop (result : HeaderSyncRunResult)
  | return_ (result : HeaderSyncRunResult)

section

variable {S : Type} [HeaderStore S] [Digests] (policy : DifficultyPolicy) (locatorLimit : ℕ)
  {P : Type} [HeaderPeerClient P] (runner : HeaderSyncRunner P) (config : RacingConfig) (now : ℕ)

/-- The candidates of a batch. -/
def RacingConfig.candidates (peers : PeerManager) : List SocketAddr :=
  peers.selectOutbound (max config.parallelHeaderFetchPeers 1) now

/-- What is done with the headers that have won a race. -/
def takeBatch (address : SocketAddr) (remoteHeight : ℕ) (headers : List BlockHeader)
    (result : HeaderSyncRunResult) : EStateM SyncError (SyncState S) RacingFlow := do
  modifyPeers fun peers => peers.recordObservedHeight address remoteHeight now
  persistPeerManager runner
  if headers.isEmpty then
    modifyPeers fun peers => peers.recordSuccess address remoteHeight now
    persistPeerManager runner
    return .stop { result with successful := saturatingAdd 64 result.successful 1 }
  match ← tryIngest policy headers with
  | .ok batch =>
    let result := { result with
      successful := saturatingAdd 64 result.successful 1
      accepted := saturatingAdd 64 result.accepted batch.accepted
      best := batch.best }
    modifyPeers fun peers => peers.recordSuccess address remoteHeight now
    persistPeerManager runner
    if headers.length < maxHeaders ∨ batch.accepted = 0 then return .stop result
    return .next result
  | .error e =>
    modifyPeers fun peers => recordChainFailure peers address now e runner.config.malformedBanSeconds
    persistPeerManager runner
    match e with
    | .storage _ | .missingBestHeader => throw (.chain e)
    | _ => return .return_ { result with
        failures := result.failures ++ [⟨address, .chain, toString e⟩] }

/-- What is done when every candidate has failed. -/
def takeFailures (failures : List HeaderPeerFailure) (result : HeaderSyncRunResult) :
    EStateM SyncError (SyncState S) RacingFlow := do
  modifyPeers fun peers =>
    failures.foldl (fun peers failure => peers.recordTransientFailure failure.address) peers
  persistPeerManager runner
  return .stop { result with failures := result.failures ++ failures }

/-- One batch of the loop of `sync_once_racing_and_persist`. -/
def racingBatch (race : HeaderRace P) (result : HeaderSyncRunResult) :
    EStateM SyncError (SyncState S) RacingFlow := do
  let candidates := config.candidates now (← get).peers
  if candidates.isEmpty then return .stop result
  let locator ← readsChain fun s => locatorWithLimit s locatorLimit
  let result := { result with attempted := saturatingAdd 64 result.attempted 1 }
  match race.raceTcpHeaderBatch candidates locator runner.config.stop with
  | .success address remoteHeight headers =>
    takeBatch policy runner now address remoteHeight headers result
  | .failure failures => takeFailures runner failures result

/-- The loop, for the batches that are left; the batch number `index` meets the race `index`. -/
def racingBatches (races : ℕ → HeaderRace P) :
    ℕ → ℕ → HeaderSyncRunResult → EStateM SyncError (SyncState S) HeaderSyncRunResult
  | 0, _, result => do
    persistPeerManager runner
    return result
  | batches + 1, index, result => do
    match ← racingBatch policy locatorLimit runner config now (races index) result with
    | .next result => racingBatches races batches (index + 1) result
    | .stop result => do
      persistPeerManager runner
      return result
    | .return_ result => return result

/-- `preferred_peers.max(1).saturating_mul(max_header_batches_per_peer.max(1))`. -/
def RacingConfig.maxBatches (maxHeaderBatchesPerPeer : ℕ) : ℕ :=
  min (2 ^ 64 - 1) (max config.preferredPeers 1 * max maxHeaderBatchesPerPeer 1)

/-- `sync_once_racing_and_persist`. -/
def syncOnceRacing (races : ℕ → HeaderRace P) :
    EStateM SyncError (SyncState S) HeaderSyncRunResult :=
  racingBatches policy locatorLimit runner config now races
    (config.maxBatches runner.config.maxHeaderBatchesPerPeer) 0 .empty

/-- The loop of `sync_once_inner`, over the peers one after the other. -/
def syncPeers : List SocketAddr → HeaderSyncRunResult →
    EStateM SyncError (SyncState S) HeaderSyncRunResult
  | [], result => return result
  | address :: addresses, result => do
    let result := { result with attempted := saturatingAdd 64 result.attempted 1 }
    match ← syncPeer policy locatorLimit runner address now with
    | .success peerResult =>
      syncPeers addresses { result with
        successful := saturatingAdd 64 result.successful 1
        accepted := saturatingAdd 64 result.accepted peerResult.accepted
        best := peerResult.best }
    | .failure failure =>
      syncPeers addresses { result with failures := result.failures ++ [failure] }

end

end Hns
