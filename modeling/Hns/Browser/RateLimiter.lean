import Hns.Browser.Text
import Hns.Lib.Window

/-!
# The rate limiter of the loopback gateway

`LoopbackGatewayRateLimiter` keeps the times of the requests it has admitted, all of them in one
queue and those of each host in another. After every call the queues hold the admitted requests of
the last window (`Tracks`). So the limits are kept in every window, for every host, and a request
is refused just when the requests that have been admitted reach one of them (`limits_of_run`).
-/

namespace Hns

open SlidingWindow

/-! ## The limiter -/

/-- The limits, as they have been required. -/
structure LoopbackGatewayRateLimiter where
  maxHnsRequestsPerWindow : ℕ
  maxHnsRequestsPerHostPerWindow : ℕ
  maxTrackedHnsHosts : ℕ
  windowMillis : Int64
  /-- `lowercase(Locale.US)`. -/
  lowercase : List UInt16 → List UInt16
  window_pos : 0 < maxHnsRequestsPerWindow
  perHost_pos : 0 < maxHnsRequestsPerHostPerWindow
  hosts_pos : 0 < maxTrackedHnsHosts
  millis_pos : 0 < windowMillis

/-- The times of the requests, the latest one last. -/
structure TrackedRequests where
  allHnsRequests : List Int64
  hnsRequestsByHost : List (List UInt16 × List Int64)

/-- A call, with the reading of the clock. -/
structure HnsRequest where
  now : Int64
  host : List UInt16

namespace LoopbackGatewayRateLimiter

variable (limiter : LoopbackGatewayRateLimiter)

def normalizedHost (host : List UInt16) : List UInt16 :=
  limiter.lowercase (kotlinTrimEnd (· = 0x2e) (kotlinTrim host))

def prune (now : Int64) (requests : List Int64) : List Int64 :=
  requests.dropWhile fun request => request ≤ now - limiter.windowMillis

def pruneTrackedHosts (now : Int64) (hosts : List (List UInt16 × List Int64)) :
    List (List UInt16 × List Int64) :=
  (hosts.map fun entry => (entry.1, limiter.prune now entry.2)).filter fun entry => entry.2 ≠ []

/-- `getOrPut`, of an empty queue. -/
def getOrPut (host : List UInt16) (hosts : List (List UInt16 × List Int64)) :
    List (List UInt16 × List Int64) :=
  if host ∈ hosts.map Prod.fst then hosts else hosts ++ [(host, [])]

/-- The queue of a host, changed. -/
def update (host : List UInt16) (change : List Int64 → List Int64)
    (hosts : List (List UInt16 × List Int64)) : List (List UInt16 × List Int64) :=
  hosts.map fun entry => if entry.1 = host then (entry.1, change entry.2) else entry

/-- The queue of a host. -/
def requestsOf (host : List UInt16) (hosts : List (List UInt16 × List Int64)) : List Int64 :=
  ((hosts.find? fun entry => entry.1 = host).map Prod.snd).getD []

def tryAdmitHnsRequest (s : TrackedRequests) (request : HnsRequest) : Bool × TrackedRequests :=
  let host := limiter.normalizedHost request.host
  let allHnsRequests := limiter.prune request.now s.allHnsRequests
  let hosts := limiter.pruneTrackedHosts request.now s.hnsRequestsByHost
  if host ∉ hosts.map Prod.fst ∧ limiter.maxTrackedHnsHosts ≤ hosts.length then
    (false, ⟨allHnsRequests, hosts⟩)
  else
    let hosts := update host (limiter.prune request.now) (getOrPut host hosts)
    let hostRequests := requestsOf host hosts
    if limiter.maxHnsRequestsPerWindow ≤ allHnsRequests.length then
      (false, ⟨allHnsRequests, hosts⟩)
    else if limiter.maxHnsRequestsPerHostPerWindow ≤ hostRequests.length then
      (false, ⟨allHnsRequests, hosts⟩)
    else
      (true, ⟨allHnsRequests ++ [request.now], update host (· ++ [request.now]) hosts⟩)

/-- A call, and the requests that are admitted. -/
def serve (run : TrackedRequests × List HnsRequest) (request : HnsRequest) :
    TrackedRequests × List HnsRequest :=
  match limiter.tryAdmitHnsRequest run.1 request with
  | (true, s) => (s, run.2 ++ [request])
  | (false, s) => (s, run.2)

/-- Some calls after each other, from the start. -/
def run (requests : List HnsRequest) : TrackedRequests × List HnsRequest :=
  requests.foldl limiter.serve (⟨[], []⟩, [])

/-! ## What is recent -/

section

variable {limiter : LoopbackGatewayRateLimiter}

/-- The requests of the window that ends at `now`. -/
def recent (limiter : LoopbackGatewayRateLimiter) (admitted : List HnsRequest) (now : Int64) :
    List HnsRequest :=
  admitted.filter fun request =>
    Recent (fun request : HnsRequest => request.now.toInt) limiter.windowMillis.toInt now.toInt request

/-- Those for a host. -/
def forHost (limiter : LoopbackGatewayRateLimiter) (host : List UInt16)
    (requests : List HnsRequest) : List HnsRequest :=
  requests.filter fun request => limiter.normalizedHost request.host = host

/-- The requests are in the order of the clock. -/
abbrev InOrder (requests : List HnsRequest) : Prop :=
  requests.Pairwise fun a b => a.now.toInt ≤ b.now.toInt

theorem InOrder.recent {requests : List HnsRequest} (h : InOrder requests) (now : Int64) :
    InOrder (limiter.recent requests now) := h.sublist List.filter_sublist

theorem InOrder.forHost {requests : List HnsRequest} (h : InOrder requests) (host : List UInt16) :
    InOrder (limiter.forHost host requests) := h.sublist List.filter_sublist

/-- The start of the window does not overflow, as no reading of the clock is negative. -/
theorem le_sub_windowMillis_iff {now : Int64} (hnow : 0 ≤ now) (time : Int64) :
    time ≤ now - limiter.windowMillis ↔ time.toInt ≤ now.toInt - limiter.windowMillis.toInt := by
  have hmillis := limiter.millis_pos
  rw [Int64.lt_iff_toInt_lt, Int64.toInt_zero] at hmillis
  rw [Int64.le_iff_toInt_le, Int64.toInt_zero] at hnow
  have hlt := now.toInt_lt
  have hlt' := limiter.windowMillis.toInt_lt
  rw [Int64.le_iff_toInt_le, Int64.toInt_sub, Int.bmod_eq_of_le (by omega) (by omega)]

/-- The queue of some requests, when its front has been removed. -/
theorem prune_map {now : Int64} (hnow : 0 ≤ now) {requests : List HnsRequest}
    (h : InOrder requests) : limiter.prune now (requests.map HnsRequest.now) =
      (limiter.recent requests now).map HnsRequest.now := by
  have hcutoff : (fun time => decide (time ≤ now - limiter.windowMillis)) ∘ HnsRequest.now =
      fun request => decide ¬Recent (fun request : HnsRequest => request.now.toInt)
        limiter.windowMillis.toInt now.toInt request := by
    funext request
    rw [Function.comp_apply, decide_eq_decide, le_sub_windowMillis_iff hnow, Recent, not_lt]
  rw [prune, List.dropWhile_map, hcutoff, dropWhile_eq_filter_recent h, recent]

theorem recent_recent {now now' : Int64} (hle : now.toInt ≤ now'.toInt)
    (requests : List HnsRequest) :
    limiter.recent (limiter.recent requests now) now' = limiter.recent requests now' :=
  filter_recent_filter_recent hle requests

theorem recent_forHost (host : List UInt16) (requests : List HnsRequest) (now : Int64) :
    limiter.recent (limiter.forHost host requests) now =
      limiter.forHost host (limiter.recent requests now) := List.filter_comm ..

/-- The queues are those of the requests of the window that ended at `now`. -/
structure Tracks (limiter : LoopbackGatewayRateLimiter) (s : TrackedRequests)
    (admitted : List HnsRequest) (now : Int64) : Prop where
  all : s.allHnsRequests = (limiter.recent admitted now).map HnsRequest.now
  byHost : ∀ entry ∈ s.hnsRequestsByHost,
    entry.2 = (limiter.forHost entry.1 (limiter.recent admitted now)).map HnsRequest.now
  complete : ∀ request ∈ limiter.recent admitted now,
    limiter.normalizedHost request.host ∈ s.hnsRequestsByHost.map Prod.fst
  nodup : (s.hnsRequestsByHost.map Prod.fst).Nodup
  bounded : s.hnsRequestsByHost.length ≤ limiter.maxTrackedHnsHosts
  inOrder : InOrder admitted
  le : ∀ request ∈ admitted, request.now.toInt ≤ now.toInt

theorem tracks_nil (now : Int64) : limiter.Tracks ⟨[], []⟩ [] now where
  all := rfl
  byHost _ h := absurd h List.not_mem_nil
  complete _ h := absurd h List.not_mem_nil
  nodup := List.nodup_nil
  bounded := Nat.zero_le _
  inOrder := .nil
  le _ h := absurd h List.not_mem_nil

theorem map_fst_pruneTrackedHosts_sublist (now : Int64) (hosts : List (List UInt16 × List Int64)) :
    ((limiter.pruneTrackedHosts now hosts).map Prod.fst).Sublist (hosts.map Prod.fst) := by
  have hsub := (List.filter_sublist (p := fun entry : List UInt16 × List Int64 => entry.2 ≠ [])
    (l := hosts.map fun entry => (entry.1, limiter.prune now entry.2))).map Prod.fst
  rwa [List.map_map] at hsub

variable {s : TrackedRequests} {admitted : List HnsRequest} {now now' : Int64}

/-- Before a request is looked at, the queues have been brought to its time. -/
theorem Tracks.prune (h : limiter.Tracks s admitted now) (hle : now.toInt ≤ now'.toInt)
    (hnow' : 0 ≤ now') :
    limiter.Tracks ⟨limiter.prune now' s.allHnsRequests,
        limiter.pruneTrackedHosts now' s.hnsRequestsByHost⟩ admitted now' ∧
      ∀ entry ∈ limiter.pruneTrackedHosts now' s.hnsRequestsByHost, entry.2 ≠ [] := by
  have hentry : ∀ entry ∈ s.hnsRequestsByHost, limiter.prune now' entry.2 =
      (limiter.forHost entry.1 (limiter.recent admitted now')).map HnsRequest.now := by
    intro entry hentry
    rw [h.byHost entry hentry, prune_map hnow' ((h.inOrder.recent now).forHost entry.1),
      recent_forHost, recent_recent hle]
  refine ⟨⟨?_, ?_, ?_, ?_, ?_, h.inOrder, fun request hrequest => (h.le request hrequest).trans hle⟩, ?_⟩
  · change limiter.prune now' s.allHnsRequests = _
    rw [h.all, prune_map hnow' (h.inOrder.recent now), recent_recent hle]
  · intro entry hmem
    obtain ⟨hmem, -⟩ := List.mem_filter.1 hmem
    obtain ⟨old, hold, rfl⟩ := List.mem_map.1 hmem
    exact hentry old hold
  · intro request hrequest
    rw [← recent_recent hle] at hrequest
    obtain ⟨hold, hnew⟩ := List.mem_filter.1 hrequest
    obtain ⟨entry, hmem, hhost⟩ := List.mem_map.1 (h.complete request hold)
    refine List.mem_map.2 ⟨(entry.1, limiter.prune now' entry.2), List.mem_filter.2
      ⟨List.mem_map_of_mem hmem, ?_⟩, hhost⟩
    rw [decide_eq_true_iff, hentry entry hmem]
    refine List.ne_nil_of_mem (List.mem_map_of_mem (List.mem_filter.2 ⟨?_, decide_eq_true hhost.symm⟩))
    rw [← recent_recent hle]
    exact hrequest
  · exact h.nodup.sublist (map_fst_pruneTrackedHosts_sublist now' _)
  · have hsub : ((limiter.pruneTrackedHosts now' s.hnsRequestsByHost).map Prod.fst).Sublist _ :=
      map_fst_pruneTrackedHosts_sublist now' s.hnsRequestsByHost
    have hlength := hsub.length_le
    rw [List.length_map, List.length_map] at hlength
    exact hlength.trans h.bounded
  · exact fun entry hmem => of_decide_eq_true (List.mem_filter.1 hmem).2

/-- The hosts are those of the requests, none twice. -/
theorem Tracks.map_fst_perm (h : limiter.Tracks s admitted now)
    (hne : ∀ entry ∈ s.hnsRequestsByHost, entry.2 ≠ []) :
    (s.hnsRequestsByHost.map Prod.fst).Perm
      ((limiter.recent admitted now).map fun request => limiter.normalizedHost request.host).dedup := by
  refine (List.perm_ext_iff_of_nodup h.nodup (List.nodup_dedup _)).2 fun host => ?_
  rw [List.mem_dedup, List.mem_map, List.mem_map]
  constructor
  · rintro ⟨entry, hentry, rfl⟩
    have hqueue := hne entry hentry
    rw [h.byHost entry hentry, ne_eq, List.map_eq_nil_iff] at hqueue
    obtain ⟨request, hrequest⟩ := List.exists_mem_of_ne_nil _ hqueue
    obtain ⟨hrecent, hhost⟩ := List.mem_filter.1 hrequest
    exact ⟨request, hrecent, of_decide_eq_true hhost⟩
  · rintro ⟨request, hrequest, rfl⟩
    exact List.mem_map.1 (h.complete request hrequest)

/-! ## One call -/

theorem Tracks.getOrPut (h : limiter.Tracks s admitted now) {host : List UInt16}
    (hroom : host ∈ s.hnsRequestsByHost.map Prod.fst ∨
      s.hnsRequestsByHost.length < limiter.maxTrackedHnsHosts) :
    limiter.Tracks ⟨s.allHnsRequests, getOrPut host s.hnsRequestsByHost⟩ admitted now ∧
      host ∈ (LoopbackGatewayRateLimiter.getOrPut host s.hnsRequestsByHost).map Prod.fst := by
  rw [LoopbackGatewayRateLimiter.getOrPut]
  split_ifs with hmem
  · exact ⟨h, hmem⟩
  have hnone : limiter.forHost host (limiter.recent admitted now) = [] := by
    refine List.filter_eq_nil_iff.2 fun request hrequest hhost => hmem ?_
    rw [← of_decide_eq_true hhost]
    exact h.complete request hrequest
  refine ⟨⟨h.all, ?_, ?_, ?_, ?_, h.inOrder, h.le⟩, by simp⟩
  · rw [List.forall_mem_append, List.forall_mem_singleton]
    exact ⟨h.byHost, by rw [hnone]; rfl⟩
  · intro request hrequest
    rw [List.map_append]
    exact List.mem_append_left _ (h.complete request hrequest)
  · rw [List.map_append, List.map_singleton, List.nodup_append]
    refine ⟨h.nodup, List.nodup_singleton _, fun a ha b hb => ?_⟩
    rintro rfl
    rw [List.mem_singleton.1 hb] at ha
    exact hmem ha
  · rw [List.length_append]
    exact Nat.succ_le_of_lt (hroom.resolve_left hmem)

/-- What has been brought to the time of the request is not changed by bringing it there again. -/
theorem Tracks.update_prune (h : limiter.Tracks s admitted now) (hnow : 0 ≤ now)
    (host : List UInt16) :
    update host (limiter.prune now) s.hnsRequestsByHost = s.hnsRequestsByHost := by
  refine (List.map_congr_left fun entry hentry => ?_).trans (List.map_id _)
  have hqueue : limiter.prune now entry.2 = entry.2 := by
    rw [h.byHost entry hentry, prune_map hnow ((h.inOrder.recent now).forHost entry.1),
      recent_forHost, recent_recent le_rfl]
  rw [hqueue]
  split_ifs <;> rfl

theorem Tracks.requestsOf (h : limiter.Tracks s admitted now) {host : List UInt16}
    (hmem : host ∈ s.hnsRequestsByHost.map Prod.fst) :
    requestsOf host s.hnsRequestsByHost =
      (limiter.forHost host (limiter.recent admitted now)).map HnsRequest.now := by
  obtain ⟨entry, hentry, hhost⟩ := List.mem_map.1 hmem
  have hsome : (s.hnsRequestsByHost.find? fun entry => entry.1 = host).isSome :=
    List.find?_isSome.2 ⟨entry, hentry, decide_eq_true hhost⟩
  obtain ⟨found, hfound⟩ := Option.isSome_iff_exists.1 hsome
  have hname : found.1 = host := by simpa using List.find?_some hfound
  rw [LoopbackGatewayRateLimiter.requestsOf, hfound, Option.map_some, Option.getD_some,
    h.byHost found (List.mem_of_find?_eq_some hfound), hname]

theorem map_fst_update (host : List UInt16) (change : List Int64 → List Int64)
    (hosts : List (List UInt16 × List Int64)) :
    (update host change hosts).map Prod.fst = hosts.map Prod.fst := by
  rw [update, List.map_map]
  refine List.map_congr_left fun entry _ => ?_
  rw [Function.comp_apply]
  split_ifs <;> rfl

/-- A request that is admitted is put into the queues. -/
theorem Tracks.concat {request : HnsRequest} (h : limiter.Tracks s admitted request.now)
    (hmem : limiter.normalizedHost request.host ∈ s.hnsRequestsByHost.map Prod.fst) :
    limiter.Tracks ⟨s.allHnsRequests ++ [request.now],
      update (limiter.normalizedHost request.host) (· ++ [request.now]) s.hnsRequestsByHost⟩
      (admitted ++ [request]) request.now := by
  have hmillis := limiter.millis_pos
  rw [Int64.lt_iff_toInt_lt, Int64.toInt_zero] at hmillis
  have hrecent : limiter.recent (admitted ++ [request]) request.now =
      limiter.recent admitted request.now ++ [request] := by
    rw [recent, List.filter_append, ← recent, List.filter_cons_of_pos, List.filter_nil]
    rw [decide_eq_true_iff, Recent]
    omega
  refine ⟨?_, ?_, ?_, ?_, ?_, ?_, ?_⟩
  · change s.allHnsRequests ++ [request.now] = _
    rw [h.all, hrecent, List.map_append, List.map_singleton]
  · intro entry hentry
    obtain ⟨old, hold, rfl⟩ := List.mem_map.1 hentry
    rw [hrecent]
    split_ifs with hhost
    · rw [forHost, List.filter_append, ← forHost, List.filter_cons_of_pos (by simpa using hhost.symm),
        List.filter_nil, List.map_append, List.map_singleton, h.byHost old hold]
    · rw [forHost, List.filter_append, ← forHost,
        List.filter_cons_of_neg (by simpa using Ne.symm hhost), List.filter_nil, List.append_nil,
        h.byHost old hold]
  · intro earlier hearlier
    rw [hrecent, List.mem_append, List.mem_singleton] at hearlier
    rw [map_fst_update]
    rcases hearlier with hearlier | rfl
    · exact h.complete earlier hearlier
    · exact hmem
  · rw [map_fst_update]
    exact h.nodup
  · rw [update, List.length_map]
    exact h.bounded
  · refine List.pairwise_append.2 ⟨h.inOrder, List.pairwise_singleton _ _, fun a ha b hb => ?_⟩
    rw [List.mem_singleton.1 hb]
    exact h.le a ha
  · rw [List.forall_mem_append, List.forall_mem_singleton]
    exact ⟨h.le, le_rfl⟩

/-- The requests that have been admitted reach a limit: that of all requests, that of the requests
    for the host, or that of the hosts, of which the host is none. -/
def Reached (limiter : LoopbackGatewayRateLimiter) (admitted : List HnsRequest)
    (request : HnsRequest) : Prop :=
  let recent := limiter.recent admitted request.now
  let host := limiter.normalizedHost request.host
  limiter.maxHnsRequestsPerWindow ≤ recent.length ∨
    limiter.maxHnsRequestsPerHostPerWindow ≤ (limiter.forHost host recent).length ∨
    limiter.forHost host recent = [] ∧ limiter.maxTrackedHnsHosts ≤
      (recent.map fun request => limiter.normalizedHost request.host).dedup.length

/-- A request is refused just when a limit is reached, and the queues are those of the requests that
    have been admitted. -/
theorem tryAdmitHnsRequest_spec {request : HnsRequest} (h : limiter.Tracks s admitted now)
    (hle : now.toInt ≤ request.now.toInt) (hnow : 0 ≤ request.now) :
    (limiter.tryAdmitHnsRequest s request = (false, (limiter.tryAdmitHnsRequest s request).2) ∧
        limiter.Reached admitted request ∧
        limiter.Tracks (limiter.tryAdmitHnsRequest s request).2 admitted request.now) ∨
      (limiter.tryAdmitHnsRequest s request = (true, (limiter.tryAdmitHnsRequest s request).2) ∧
        ¬limiter.Reached admitted request ∧
        limiter.Tracks (limiter.tryAdmitHnsRequest s request).2 (admitted ++ [request])
          request.now) := by
  obtain ⟨hpruned, hne⟩ := h.prune hle hnow
  have hperm := hpruned.map_fst_perm hne
  have hlength := hperm.length_eq
  rw [List.length_map] at hlength
  have hhost (host : List UInt16) : host ∉ (limiter.pruneTrackedHosts request.now
      s.hnsRequestsByHost).map Prod.fst ↔
        limiter.forHost host (limiter.recent admitted request.now) = [] := by
    rw [hperm.mem_iff, List.mem_dedup, List.mem_map, forHost, List.filter_eq_nil_iff]
    simp
  have hcount : (limiter.prune request.now s.allHnsRequests).length =
      (limiter.recent admitted request.now).length :=
    (congrArg List.length hpruned.all).trans (List.length_map _)
  rw [tryAdmitHnsRequest]
  dsimp only
  split_ifs with hfull hall hmany
  · refine .inl ⟨rfl, .inr (.inr ⟨(hhost _).1 hfull.1, ?_⟩), hpruned⟩
    rw [← hlength]
    exact hfull.2
  all_goals
    have hroom := hfull
    rw [not_and_or, not_not, not_le] at hroom
    obtain ⟨hput, hmem⟩ := hpruned.getOrPut hroom
    have hupdate := hput.update_prune hnow (limiter.normalizedHost request.host)
    have hqueue : (requestsOf (limiter.normalizedHost request.host) (getOrPut
        (limiter.normalizedHost request.host) (limiter.pruneTrackedHosts request.now
          s.hnsRequestsByHost))).length = (limiter.forHost (limiter.normalizedHost request.host)
            (limiter.recent admitted request.now)).length :=
      (congrArg List.length (hput.requestsOf hmem)).trans (List.length_map _)
    dsimp only at hupdate
    rw [hupdate]
  · refine .inl ⟨rfl, .inl ?_, hput⟩
    rwa [hcount] at hall
  · refine .inl ⟨rfl, .inr (.inl ?_), hput⟩
    rwa [hupdate, hqueue] at hmany
  · refine .inr ⟨rfl, ?_, hput.concat hmem⟩
    rintro (hreached | hreached | ⟨hnone, hreached⟩)
    · exact hall (hcount ▸ hreached)
    · rw [hupdate, hqueue] at hmany
      exact hmany hreached
    · rw [← hlength] at hreached
      exact hfull ⟨(hhost _).2 hnone, hreached⟩

/-! ## Calls after each other -/

variable (limiter) in
/-- What is promised of the requests that have been admitted. -/
structure WithinLimits (admitted : List HnsRequest) : Prop where
  all : AtMostPer (fun request : HnsRequest => request.now.toInt) limiter.windowMillis.toInt
    limiter.maxHnsRequestsPerWindow admitted
  perHost (host : List UInt16) : AtMostPer (fun request : HnsRequest => request.now.toInt)
    limiter.windowMillis.toInt limiter.maxHnsRequestsPerHostPerWindow (limiter.forHost host admitted)

theorem WithinLimits.concat (h : limiter.WithinLimits admitted) {request : HnsRequest}
    (hreached : ¬limiter.Reached admitted request) :
    limiter.WithinLimits (admitted ++ [request]) := by
  have hall : (limiter.recent admitted request.now).length < limiter.maxHnsRequestsPerWindow :=
    not_le.1 fun hle => hreached (.inl hle)
  have hhost : (limiter.forHost (limiter.normalizedHost request.host)
      (limiter.recent admitted request.now)).length < limiter.maxHnsRequestsPerHostPerWindow :=
    not_le.1 fun hle => hreached (.inr (.inl hle))
  refine ⟨h.all.concat hall, fun host => ?_⟩
  rw [forHost, List.filter_append, ← forHost]
  by_cases heq : limiter.normalizedHost request.host = host
  · rw [List.filter_cons_of_pos (by simpa using heq), List.filter_nil]
    rw [heq, ← recent_forHost] at hhost
    exact (h.perHost host).concat hhost
  · rw [List.filter_cons_of_neg (by simpa using heq), List.filter_nil, List.append_nil]
    exact h.perHost host

/-- The clock counts the milliseconds since 1970. Its readings do not decrease. -/
structure ClockReadings (requests : List HnsRequest) : Prop where
  inOrder : InOrder requests
  nonneg : ∀ request ∈ requests, 0 ≤ request.now

theorem ClockReadings.of_append {requests later : List HnsRequest}
    (h : ClockReadings (requests ++ later)) : ClockReadings requests :=
  ⟨(List.pairwise_append.1 h.inOrder).1, fun request hrequest =>
    h.nonneg request (List.mem_append_left _ hrequest)⟩

theorem run_concat (requests : List HnsRequest) (request : HnsRequest) :
    limiter.run (requests ++ [request]) = limiter.serve (limiter.run requests) request := by
  rw [run, List.foldl_append]
  rfl

/-- After some calls, the queues are those of the requests that have been admitted. -/
theorem tracks_run {requests : List HnsRequest} (hclock : ClockReadings requests) {now : Int64}
    (hnow : ∀ request ∈ requests, request.now.toInt ≤ now.toInt) :
    ∃ last : Int64, last.toInt ≤ now.toInt ∧
      limiter.Tracks (limiter.run requests).1 (limiter.run requests).2 last ∧
      limiter.WithinLimits (limiter.run requests).2 := by
  induction requests using List.reverseRecOn generalizing now with
  | nil => exact ⟨now, le_rfl, tracks_nil now, atMostPer_nil _, fun _ => atMostPer_nil _⟩
  | append_singleton requests request ih =>
    have hbefore : ∀ earlier ∈ requests, earlier.now.toInt ≤ request.now.toInt := fun earlier hearlier =>
      (List.pairwise_append.1 hclock.inOrder).2.2 earlier hearlier request List.mem_cons_self
    obtain ⟨last, hlast, htracks, hwithin⟩ := ih hclock.of_append hbefore
    have hmem : request ∈ requests ++ [request] := List.mem_append_right _ List.mem_cons_self
    refine ⟨request.now, hnow request hmem, ?_⟩
    rw [run_concat, serve]
    rcases tryAdmitHnsRequest_spec htracks hlast (hclock.nonneg request hmem) with
      ⟨hcall, -, htracks'⟩ | ⟨hcall, hreached, htracks'⟩
    · rw [hcall]
      exact ⟨htracks', hwithin⟩
    · rw [hcall]
      exact ⟨htracks', hwithin.concat hreached⟩

/-- **The request flood rule.** Whatever hosts are asked for, the admitted requests keep to the
    limits in every window, no more hosts are tracked than may be, and the next request is refused
    just when those that have been admitted reach a limit. -/
theorem limits_of_run (limiter : LoopbackGatewayRateLimiter) {requests : List HnsRequest}
    {request : HnsRequest} (hclock : ClockReadings (requests ++ [request])) :
    limiter.WithinLimits (limiter.run requests).2 ∧
      (limiter.run requests).1.hnsRequestsByHost.length ≤ limiter.maxTrackedHnsHosts ∧
      ((limiter.tryAdmitHnsRequest (limiter.run requests).1 request).1 = false ↔
        limiter.Reached (limiter.run requests).2 request) := by
  have hbefore : ∀ earlier ∈ requests, earlier.now.toInt ≤ request.now.toInt := fun earlier hearlier =>
    (List.pairwise_append.1 hclock.inOrder).2.2 earlier hearlier request List.mem_cons_self
  obtain ⟨last, hlast, htracks, hwithin⟩ := @tracks_run limiter _ hclock.of_append _ hbefore
  refine ⟨hwithin, htracks.bounded, ?_⟩
  have hnonneg := hclock.nonneg request (List.mem_append_right _ List.mem_cons_self)
  rcases tryAdmitHnsRequest_spec htracks hlast hnonneg with
    ⟨hcall, hreached, -⟩ | ⟨hcall, hreached, -⟩
  · exact iff_of_true (congrArg Prod.fst hcall) hreached
  · refine iff_of_false (fun hfalse => ?_) hreached
    rw [hcall] at hfalse
    cases hfalse

end

end LoopbackGatewayRateLimiter

namespace RateLimiterSample

open LoopbackGatewayRateLimiter

/-- One request in ten milliseconds. -/
def limiter : LoopbackGatewayRateLimiter where
  maxHnsRequestsPerWindow := 1
  maxHnsRequestsPerHostPerWindow := 1
  maxTrackedHnsHosts := 1
  windowMillis := 10
  lowercase := List.map fun unit => if 0x41 ≤ unit ∧ unit ≤ 0x5a then unit + 0x20 else unit
  window_pos := Nat.one_pos
  perHost_pos := Nat.one_pos
  hosts_pos := Nat.one_pos
  millis_pos := by decide

def first : HnsRequest := ⟨5, [0x61]⟩

/-- A request for another host, when the window of the first one has passed. -/
def second : HnsRequest := ⟨15, [0x62]⟩

theorem clockReadings : ClockReadings ([first] ++ [second]) where
  inOrder := by decide
  nonneg := by decide

theorem limits_first :
    limiter.WithinLimits (limiter.run [first]).2 ∧
      (limiter.run [first]).1.hnsRequestsByHost.length ≤ limiter.maxTrackedHnsHosts ∧
      ((limiter.tryAdmitHnsRequest (limiter.run [first]).1 second).1 = false ↔
        limiter.Reached (limiter.run [first]).2 second) :=
  limits_of_run limiter clockReadings

/-- It is admitted at the end of the window, and refused before. -/
example : (limiter.tryAdmitHnsRequest (limiter.run [first]).1 second).1 = true ∧
    (limiter.tryAdmitHnsRequest (limiter.run [first]).1 ⟨14, [0x62]⟩).1 = false := by decide

end RateLimiterSample

end Hns
