import Hns.Chain.Sample
import Hns.Gateway.ProofProvider
import Hns.Sync.Stored
import Hns.Urkel.Sound

/-!
# Names are proven under recent headers

What holds of every answer of the `GatewayProofProvider`, while requests and
the sync use the databases at once: every row of the cache has been proven
(`Sound`), and an answer is taken from such a row, whose header has been
canonical and recent when it was looked up (`Founded`).

* `proveName_founded`: what an answer of `prove_name` rests on;
* `proveName_of_tree`: it is what the tree holds that the header commits to.
-/

namespace Hns

open HeaderStore Atomic

/-! ## What is proven -/

section Proven

variable [Digests] {known known' : Headers} {row : ValueRow} {verified : VerifiedResourceValue}

/-- The value is what a proof says that verifies against the tree root of a header. -/
def VerifiedResourceValue.IsProven (known : Headers) (verified : VerifiedResourceValue) : Prop :=
  ∃ (header : StoredHeader) (proof : UrkelProof), known header.hash = some header ∧
    0 < header.height ∧ verified.anchor = some ⟨header.header.treeRoot, header.height⟩ ∧
    proof.verify header.header.treeRoot verified.nameHash ∧
    proof.Says verified.rootName verified.value ∧ verified.secure = true

def ValueRow.IsProven (known : Headers) (row : ValueRow) : Prop :=
  ∃ now verified, row = .ofVerified now verified ∧ verified.IsProven known

theorem ValueRow.IsProven.mono (h : row.IsProven known) (hsub : known.Sub known') :
    row.IsProven known' := by
  obtain ⟨now, verified, hrow, header, proof, hknown, hrest⟩ := h
  exact ⟨now, verified, hrow, header, proof, hsub _ _ hknown, hrest⟩

/-- The headers are a tree, and every row is proven under one of them. -/
structure GatewayStores.Sound {S : Type} [HeaderStore S] (s : GatewayStores S) : Prop where
  tree : ∃ t, Represents s.headers t
  proven : ∀ row ∈ s.values.rows, row.IsProven (getHeader s.headers)

end Proven

/-! ## What happens to the databases -/

section Steps

variable {S : Type} [HeaderStore S] [Digests] {s s' : GatewayStores S}

/-- What the sync does, and what clears the cache: headers are inserted, peers are saved, rows are
    removed. -/
inductive GatewayStep : GatewayStores S → GatewayStores S → Prop
  | headers {s : GatewayStores S} {headers : S} : Step s.headers headers →
      HeightsBounded (getHeader headers) → GatewayStep s { s with headers }
  | peers (s : GatewayStores S) (peers : PeerManager) : GatewayStep s { s with peers }
  | prune (s : GatewayStores S) (poisoned : Bool) (faults : Faults)
      (valid : List ResourceValueAnchor) (pruneUnanchored : Bool) : GatewayStep s
        { s with values := (s.values.pruneInvalidAnchors poisoned faults valid pruneUnanchored).2 }
  | limit (s : GatewayStores S) (poisoned : Bool) (faults : Faults) (maxBytes : ℕ) : GatewayStep s
      { s with values := (s.values.enforceValueByteLimit poisoned faults maxBytes).2 }
  | clear {s : GatewayStores S} {fault : Option StatementFault} {values : ValueTable} :
      s.values.clear fault = .ok values → GatewayStep s { s with values }

/-- What may happen: no header is lost, and what is sound stays so. -/
def Allowed (s s' : GatewayStores S) : Prop :=
  s.Sound → s'.Sound ∧ Table.Sub (getHeader s.headers) (getHeader s'.headers)

theorem Allowed.refl (s : GatewayStores S) : Allowed s s := fun hs => ⟨hs, Table.Sub.refl _⟩

theorem Allowed.of_values (hheaders : s'.headers = s.headers)
    (hproven : s.Sound → ∀ row ∈ s'.values.rows, row.IsProven (getHeader s.headers)) :
    Allowed s s' := by
  intro hs
  rw [hheaders]
  exact ⟨⟨hheaders ▸ hs.tree, hheaders ▸ hproven hs⟩, Table.Sub.refl _⟩

/-- To remove rows is allowed. -/
theorem Allowed.of_subset (hheaders : s'.headers = s.headers)
    (hrows : s'.values.rows ⊆ s.values.rows) : Allowed s s' :=
  .of_values hheaders fun hs row hrow => hs.proven row (hrows hrow)

/-- An insertion of headers makes the tree grow. -/
theorem Represents.grows [LawfulHeaderStore S] {s s' : S} {t : ChainTree} (h : Represents s t)
    (hstep : Step s s') (hbounded : HeightsBounded (getHeader s')) :
    ∃ t', Represents s' t' ∧ t.headers.Sub t'.headers := by
  cases hstep with
  | genesis header =>
    rcases insertGenesis_spec h header with ⟨e, s', hs', hrep, -⟩ | ⟨hempty, s', hs', hrep⟩
    · exact ⟨t, by rwa [hs'], Table.Sub.refl _⟩
    · refine ⟨.genesis, by rwa [hs'], ?_⟩
      rw [hempty]
      exact fun _ _ hnone => absurd hnone (by simp)
  | header header =>
    rcases insertHeader_spec h header hbounded with ⟨e, s', hs', hrep⟩ | ⟨e, -, -, s', hs', hrep⟩
    · exact ⟨t, by rwa [hs'], Table.Sub.refl _⟩
    · exact ⟨t.extend e, by rwa [hs'], e.grows.sub⟩
  | headers headers =>
    rcases insertHeaders_spec h headers hbounded with
      ⟨e, hs'⟩ | ⟨-, hs'⟩ | ⟨e, -, -, s', hs', hrep⟩
    · exact ⟨t, by rwa [hs'], Table.Sub.refl _⟩
    · exact ⟨t, by rwa [hs'], Table.Sub.refl _⟩
    · exact ⟨t.extend e, by rwa [hs'], e.grows.sub⟩

theorem GatewayStep.allowed [LawfulHeaderStore S] (h : GatewayStep s s') : Allowed s s' := by
  cases h with
  | headers hstep hbounded =>
    intro hs
    obtain ⟨t, ht⟩ := hs.tree
    obtain ⟨t', ht', hsub⟩ := ht.grows hstep hbounded
    rw [← ht.getHeader_eq, ← ht'.getHeader_eq] at hsub
    exact ⟨⟨⟨t', ht'⟩, fun row hrow => (hs.proven row hrow).mono hsub⟩, hsub⟩
  | peers peers => exact .of_subset rfl (List.Subset.refl _)
  | prune poisoned faults valid pruneUnanchored =>
    refine .of_subset rfl ?_
    rcases s.values.pruneInvalidAnchors_spec poisoned faults valid pruneUnanchored with
      ⟨e, hprune⟩ | ⟨removed, after, hprune, hrows, -⟩
    · rw [hprune]
      exact List.Subset.refl _
    · rw [hprune, hrows]
      exact fun row hrow => List.mem_of_mem_filter hrow
  | limit poisoned faults maxBytes =>
    exact .of_subset rfl fun row hrow => List.mem_of_mem_filter hrow
  | @clear fault values hclear =>
    cases fault with
    | some fault => cases hclear
    | none =>
      cases hclear
      exact .of_subset rfl (List.nil_subset _)

end Steps

/-! ## What is fetched -/

section Fetching

variable [Digests] {insertions : Insertions} {values : ValueTable} {row : ValueRow}

theorem mem_insert {fault : Option StatementFault} {now : ℤ} {verified : VerifiedResourceValue}
    (hrow : row ∈ ((values.insert fault now verified).toOption.getD values).rows) :
    row ∈ values.rows ∨ ∃ verified', normalizeVerifiedResourceValue verified = .ok verified' ∧
      row = .ofVerified now verified' := by
  cases hinsert : values.insert fault now verified with
  | error e =>
    rw [hinsert] at hrow
    exact .inl hrow
  | ok after =>
    rw [hinsert] at hrow
    obtain ⟨verified', hverified, hupsert⟩ := Except.bind_eq_ok.1 hinsert
    cases fault with
    | some fault => cases hupsert
    | none =>
      rcases (ValueTable.mem_upsert hupsert).1 hrow with hsame | ⟨hold, -⟩
      · exact .inr ⟨verified', hverified, hsame⟩
      · exact .inl hold

theorem mem_insertStored {stored : List Insertion}
    (hrow : row ∈ (insertStored insertions values stored).rows) :
    row ∈ values.rows ∨ ∃ i ∈ stored, ∃ verified,
      normalizeVerifiedResourceValue i.verified = .ok verified ∧
        row = .ofVerified insertions.now verified := by
  induction stored generalizing values with
  | nil => exact .inl hrow
  | cons i stored ih =>
    rcases ih hrow with hrow | ⟨i', hi', hverified⟩
    · rcases mem_insert hrow with hrow | hverified
      · exact .inl hrow
      · exact .inr ⟨i, List.mem_cons_self, hverified⟩
    · exact .inr ⟨i', List.mem_cons_of_mem _ hi', hverified⟩

/-- What a fetch adds has been proven for the name, under the root and the height. -/
theorem mem_fetchFromPeer {script : PeerScript} {rootName : List Char} {nameHash : NameHash}
    {proofRoot : Hash} {proofHeight : ℕ} (hnamed : NameHash.fromName rootName = .ok nameHash)
    (hrow : row ∈ (fetchFromPeer script insertions rootName nameHash proofRoot proofHeight
      values).2.rows) :
    row ∈ values.rows ∨ ∃ value, ∃ proof : UrkelProof,
      row = .ofVerified insertions.now
        ⟨rootName, nameHash, value, true, some ⟨proofRoot, proofHeight⟩⟩ ∧
      proof.verify proofRoot nameHash ∧ proof.Says rootName value := by
  rw [fetchFromPeer] at hrow
  split at hrow
  · exact .inl hrow
  · split at hrow
    · exact .inl hrow
    · next session remote hhandshake =>
      split_ifs at hrow with hheight
      · exact .inl hrow
      · rcases mem_insertStored hrow with hrow | ⟨i, hi, verified, hnormal, hrow⟩
        · exact .inl hrow
        · obtain ⟨proof, hverify, hcontent, hname, hhash, hsecure, hanchor⟩ :=
            ProofScheduler.stored_requestHash rfl rfl i hi
          obtain ⟨hroot, -, hsame⟩ := normalizeVerifiedResourceValue_eq_ok hnormal
          -- The name of the call has a hash, so it is its own root.
          rw [normalizeVerifiedRoot, hname, hnsRootLabel_of_fromName hnamed] at hroot
          have hvalue : verified =
              ⟨rootName, nameHash, i.verified.value, true, some ⟨proofRoot, proofHeight⟩⟩ := by
            refine hsame.trans ?_
            rw [← Except.ok.inj hroot, hhash, hsecure, hanchor]
          exact .inr ⟨i.verified.value, proof, hvalue ▸ hrow, hverify, hcontent⟩

end Fetching

/-! ## What the programs do -/

section Programs

variable {S : Type} [HeaderStore S] [Digests] {h h₁ started started' ended ended' : History (GatewayStores S)}

theorem sound_of_extends (hs : h.now.Sound) (he : h.Extends Allowed h₁) : h₁.now.Sound :=
  he.keeps (fun _ _ hallowed hsound => (hallowed hsound).1) hs

/-- A header that is stored stays so. -/
theorem stored_of_extends {stored : StoredHeader} (hs : h.now.Sound)
    (hstored : getHeader h.now.headers stored.hash = some stored) (he : h.Extends Allowed h₁) :
    getHeader h₁.now.headers stored.hash = some stored :=
  (he.keeps (p := fun s => s.Sound ∧ getHeader s.headers stored.hash = some stored)
    (fun _ _ hallowed hsound =>
      ⟨(hallowed hsound.1).1, (hallowed hsound.1).2 _ _ hsound.2⟩) ⟨hs, hstored⟩).2

theorem gives_savePeerStates (faults : List (Option P2pError)) (peers : List PeerState) :
    Gives Allowed (fun _ _ => True) (savePeerStates (S := S) faults peers) h := by
  induction peers generalizing faults h with
  | nil => exact .pure fun _ _ => trivial
  | cons peer peers ih =>
    refine .bind (.settled fun _ h₁ _ he => .bind (.change (fun h₂ _ => ?_)
      fun _ _ _ _ _ _ _ => ih _))
    exact .of_subset rfl (List.Subset.refl _)

theorem bestHeader_stored {s : GatewayStores S} {best : StoredHeader} (hs : s.Sound)
    (hbest : bestHeaderIn s = .ok (some best)) : getHeader s.headers best.hash = some best := by
  obtain ⟨t, ht⟩ := hs.tree
  rw [bestHeaderIn, Except.mapError_eq_ok, ht.bestHeader_eq] at hbest
  rw [ht.getHeader_eq]
  exact (ChainTree.tip_eq_some_iff.1 (Except.ok.inj hbest)).2

theorem gives_bestSyncedHeader (openHeaders : Option ChainError) (hs : h.now.Sound) :
    Gives Allowed (fun h best => getHeader h.now.headers best.hash = some best ∧ 0 < best.height)
      (bestSyncedHeader (S := S) openHeaders) h := by
  refine .bind (.settled fun _ h₁ _ he => .bind (.read Allowed.refl fun best h₂ h₃ hread he' he'' => ?_))
  cases best with
  | none => exact .throw
  | some best =>
    have hs₂ := sound_of_extends (sound_of_extends hs he) he'
    have hstored := bestHeader_stored hs₂ hread
    dsimp only
    split_ifs with hzero
    · exact .throw
    · exact .pure fun h₄ he₄ =>
        ⟨stored_of_extends hs₂ hstored (he''.trans he₄), Nat.pos_of_ne_zero hzero⟩

theorem gives_fetchLoop {call : ProveNameCall} {best : StoredHeader} (hs : h.now.Sound)
    (hstored : getHeader h.now.headers best.hash = some best) (hpos : 0 < best.height)
    (selected : List SocketAddr) (peers : PeerManager) :
    Gives Allowed (fun _ _ => True)
      (fetchLoop (S := S) call.fetch call.rootName call.nameHash best selected peers) h := by
  induction selected generalizing peers h with
  | nil => exact .bind ((gives_savePeerStates _ _).mono fun _ _ _ => .throw)
  | cons address selected ih =>
    refine .bind (.change (fun h₁ he => ?_) fun outcome h₁ h₂ _ he he₂ _ => ?_)
    · refine .of_values rfl fun hsound row hrow => ?_
      rcases mem_fetchFromPeer call.named hrow with hrow | ⟨value, proof, hrow, hverify, hcontent⟩
      · exact hsound.proven row hrow
      · exact ⟨_, _, hrow, best, proof, stored_of_extends hs hstored he, hpos, rfl, hverify, hcontent,
          rfl⟩
    · cases outcome with
      | ok remoteHeight => exact gives_savePeerStates _ _
      | error e => exact ih (sound_of_extends hs he₂) (stored_of_extends hs hstored he₂) _

theorem gives_fetchAndStoreLiveProof (call : ProveNameCall) (hs : h.now.Sound) :
    Gives Allowed (fun _ _ => True) (fetchAndStoreLiveProof (S := S) call.provider call.fetch
      call.rootName call.nameHash) h := by
  refine .bind ((gives_bestSyncedHeader _ hs).and_extends.mono fun h₁ best hbest => ?_)
  obtain ⟨⟨hstored, hpos⟩, he⟩ := hbest
  refine .bind (.settled fun _ h₂ _ he₂ => .bind (.settled fun _ h₃ _ he₃ =>
    .bind (.read Allowed.refl fun peers h₄ h₅ _ he₄ he₅ => ?_)))
  have hs₁ := sound_of_extends hs he
  have he' := ((he₂.trans he₃).trans he₄).trans he₅
  exact gives_fetchLoop (sound_of_extends hs₁ he') (stored_of_extends hs₁ hstored he') hpos _ _

/-! ### What has been seen -/

/-- A header with the anchor has been canonical, and recent for the best header before it. -/
def SeenCanonical (started ended : History (GatewayStores S)) (anchor : ResourceValueAnchor) : Prop :=
  ∃ (checked canonical : History (GatewayStores S)) (best header : StoredHeader),
    started.states <:+ checked.states ∧ checked.states <:+ canonical.states ∧
    canonical.states <:+ ended.states ∧ canonical.now.Sound ∧
    bestHeader checked.now.headers = .ok (some best) ∧
    canonicalHeader canonical.now.headers anchor.height = some header ∧
    header.header.treeRoot = anchor.treeRoot ∧ 0 < anchor.height ∧ anchor.height ≤ best.height ∧
    best.height - anchor.height ≤ resourceProofCacheCanonicalWindow

/-- The chain has not been known to be stale at a time. -/
def SeenCurrent (now : ℕ) (started ended : History (GatewayStores S)) : Prop :=
  ∃ (chain peers : History (GatewayStores S)) (best : Option StoredHeader),
    started.states <:+ chain.states ∧ chain.states <:+ peers.states ∧
    peers.states <:+ ended.states ∧ bestHeader chain.now.headers = .ok best ∧
    (LocalChainCurrentness.new (best.map StoredHeader.height)
      (bestPeerHeight peers.now.peers.loadManager) (estimatedMainnetTipHeight now)).stale ≠ some true

theorem SeenCanonical.mono {anchor : ResourceValueAnchor} (hseen : SeenCanonical started ended anchor)
    (he : ended.states <:+ ended'.states) : SeenCanonical started ended' anchor := by
  obtain ⟨checked, canonical, best, header, h₁, h₂, h₃, hrest⟩ := hseen
  exact ⟨checked, canonical, best, header, h₁, h₂, h₃.trans he, hrest⟩

omit [Digests] in
theorem SeenCurrent.mono {now : ℕ} (hseen : SeenCurrent now started ended)
    (he : ended.states <:+ ended'.states) : SeenCurrent now started ended' := by
  obtain ⟨chain, peers, best, h₁, h₂, h₃, hrest⟩ := hseen
  exact ⟨chain, peers, best, h₁, h₂, h₃.trans he, hrest⟩

theorem SeenCanonical.of_suffix {anchor : ResourceValueAnchor}
    (hseen : SeenCanonical started' ended anchor) (he : started.states <:+ started'.states) :
    SeenCanonical started ended anchor := by
  obtain ⟨checked, canonical, best, header, h₁, hrest⟩ := hseen
  exact ⟨checked, canonical, best, header, he.trans h₁, hrest⟩

omit [Digests] in
theorem SeenCurrent.of_suffix {now : ℕ} (hseen : SeenCurrent now started' ended)
    (he : started.states <:+ started'.states) : SeenCurrent now started ended := by
  obtain ⟨chain, peers, best, h₁, hrest⟩ := hseen
  exact ⟨chain, peers, best, he.trans h₁, hrest⟩

theorem gives_anchorIsRecentCanonical (openHeaders : Option ChainError)
    (anchor : Option ResourceValueAnchor) (hs : h.now.Sound) :
    Gives Allowed (fun h' recent => recent = true → ∃ a, anchor = some a ∧ SeenCanonical h h' a)
      (anchorIsRecentCanonical (S := S) openHeaders anchor) h := by
  cases anchor with
  | none => exact .pure fun _ _ hfalse => absurd hfalse Bool.false_ne_true
  | some anchor =>
    refine .bind (.settled fun _ h₁ _ he₁ => .bind (.read Allowed.refl fun best h₂ h₃ hbest he₂ he₃ => ?_))
    cases best with
    | none => exact .pure fun _ _ hfalse => absurd hfalse Bool.false_ne_true
    | some best =>
      dsimp only
      split_ifs with hheight hwindow
      · exact .pure fun _ _ hfalse => absurd hfalse Bool.false_ne_true
      · exact .pure fun _ _ hfalse => absurd hfalse Bool.false_ne_true
      · refine .bind (.read Allowed.refl fun header h₄ h₅ hread he₄ he₅ => ?_)
        cases hread
        refine .pure fun h₆ he₆ hrecent => ?_
        rw [Option.any_eq_true] at hrecent
        obtain ⟨header, hheader, hroot⟩ := hrecent
        rw [bestHeaderIn, Except.mapError_eq_ok] at hbest
        have hs₄ := sound_of_extends hs (((he₁.trans he₂).trans he₃).trans he₄)
        exact ⟨anchor, rfl, h₂, h₄, best, header, (he₁.trans he₂).suffix, (he₃.trans he₄).suffix,
          (he₅.trans he₆).suffix, hs₄, hbest, hheader, by simpa using hroot, by omega, by omega,
          not_lt.1 hwindow⟩

theorem gives_localChainIsStale (inputs : CacheInputs) :
    Gives Allowed (fun h' stale => stale = false → SeenCurrent inputs.now h h')
      (localChainIsStale (S := S) inputs) h := by
  refine .bind (.settled fun _ h₁ _ he₁ => .bind (.read Allowed.refl fun best h₂ h₃ hbest he₂ he₃ =>
    .bind (.settled fun _ h₄ _ he₄ => .bind (.settled fun _ h₅ _ he₅ =>
      .bind (.read Allowed.refl fun peers h₆ h₇ hpeers he₆ he₇ => .pure fun h₈ he₈ hstale => ?_)))))
  cases hpeers
  rw [bestHeaderIn, Except.mapError_eq_ok] at hbest
  refine ⟨h₂, h₆, best, (he₁.trans he₂).suffix,
    (((he₃.trans he₄).trans he₅).trans he₆).suffix, (he₇.trans he₈).suffix, hbest, fun htrue => ?_⟩
  rw [htrue] at hstale
  cases hstale

theorem gives_isStaleFor (inputs : CacheInputs) (value : Option (List UInt8)) :
    Gives Allowed (fun h' stale => stale = false → value = none → SeenCurrent inputs.now h h')
      (isStaleFor (S := S) inputs value) h := by
  rw [isStaleFor]
  split_ifs with hnone
  · exact (gives_localChainIsStale inputs).mono fun h' stale hseen hfalse _ => hseen hfalse
  · exact .pure fun h' _ _ hvalue => absurd (by rw [hvalue]; rfl) hnone

/-! ### What an answer rests on -/

/-- What an answer rests on: a proof under the tree root of a header that has been canonical and
    recent, and if it says that there is nothing, a chain that has been current. -/
structure IsGround (rootName : List Char) (nameHash : NameHash) (now : ℕ)
    (started ended : History (GatewayStores S)) (records : ProvenNameRecords)
    (value : Option (List UInt8)) (proof : UrkelProof) (anchor : ResourceValueAnchor) : Prop where
  verifies : proof.verify anchor.treeRoot nameHash
  content : proof.Says rootName value
  canonical : SeenCanonical started ended anchor
  current : value = none → SeenCurrent now started ended
  records_eq : ProvenNameRecords.fromVerifiedResourceValue
    ⟨rootName, nameHash, value, true, some anchor⟩ = .ok records

def Founded (rootName : List Char) (nameHash : NameHash) (now : ℕ)
    (started ended : History (GatewayStores S)) (records : ProvenNameRecords) : Prop :=
  ∃ value proof anchor, IsGround rootName nameHash now started ended records value proof anchor

/-- What is found in the cache has been proven for the name that it is asked for. -/
theorem isProven_of_proveResourceValue {s : GatewayStores S} (hs : s.Sound)
    {fault : Option StatementFault} {rootName : List Char} {nameHash : NameHash}
    {verified : VerifiedResourceValue}
    (hfound : s.values.proveResourceValue fault rootName nameHash = .ok verified) :
    verified.IsProven (getHeader s.headers) := by
  obtain ⟨root, hroot, hfound⟩ := Except.bind_eq_ok.1 hfound
  cases fault with
  | some fault => cases hfound
  | none =>
    obtain ⟨row, hrow, hread⟩ := Except.bind_eq_ok.1 hfound
    obtain ⟨hmem, hkey⟩ := ValueTable.find_eq_some_iff.1 (Except.ofOption_eq_ok.1 hrow)
    obtain ⟨now, verified', rfl, hproven⟩ := hs.proven row hmem
    obtain rfl : verified'.rootName = root := utf8_injective (Prod.mk.inj hkey).1
    have hheight : ∀ a, verified'.anchor = some a → a.height < 2 ^ 32 := by
      obtain ⟨t, ht⟩ := hs.tree
      obtain ⟨header, proof, hknown, -, hanchor, -⟩ := hproven
      intro a ha
      rw [hanchor, Option.some.injEq] at ha
      have hlt := ht.bounded _ _ hknown
      rw [← ha]
      exact hlt.trans (by decide)
    rw [ValueRow.toVerified_ofVerified now hheight] at hread
    exact Except.ok.inj hread ▸ hproven

theorem gives_cachedRecords (inputs : CacheInputs) (rootName : List Char) (nameHash : NameHash)
    (hs : h.now.Sound) :
    Gives Allowed (fun h' records => Founded rootName nameHash inputs.now h h' records)
      (cachedRecords (S := S) inputs rootName nameHash) h := by
  refine .bind (.read Allowed.refl fun verified h₁ h₂ hread he₁ he₂ => ?_)
  have hproven := isProven_of_proveResourceValue (sound_of_extends hs he₁) hread
  have he := he₁.trans he₂
  split_ifs with hother
  · exact .throw
  · simp only [not_or, not_not, Bool.not_eq_true', Bool.not_eq_false] at hother
    obtain ⟨hname, hhash, hsecure⟩ := hother
    obtain ⟨header, proof, -, hpos, hanchor, hverify, hcontent, -⟩ := hproven
    refine .bind ((gives_anchorIsRecentCanonical _ _ (sound_of_extends hs he)).and_extends.mono
      fun h₃ recent hrecent => ?_)
    obtain ⟨hrecent, he₃⟩ := hrecent
    cases recent with
    | false => exact .throw
    | true =>
      obtain ⟨anchor, hsame, hcanonical⟩ := hrecent rfl
      obtain rfl : _ = anchor := Option.some.inj (hanchor.symm.trans hsame)
      refine .bind ((gives_isStaleFor inputs verified.value).and_extends.mono fun h₄ stale hstale => ?_)
      obtain ⟨hstale, he₄⟩ := hstale
      cases stale with
      | true => exact .throw
      | false =>
        refine .settled fun records h₅ hrecords he₅ => ?_
        have hverified : verified =
            ⟨rootName, nameHash, verified.value, true, some ⟨header.header.treeRoot, header.height⟩⟩ := by
          rw [← hname, ← hhash, ← hsecure, ← hanchor]
        refine ⟨verified.value, proof, ⟨header.header.treeRoot, header.height⟩, ?_, ?_, ?_, ?_, ?_⟩
        · exact hhash ▸ hverify
        · exact hname ▸ hcontent
        · exact (hcanonical.mono (he₄.trans he₅).suffix).of_suffix he.suffix
        · intro hnone
          exact ((hstale rfl hnone).mono he₅.suffix).of_suffix (he.trans he₃).suffix
        · exact hverified ▸ hrecords

theorem Founded.mono {rootName : List Char} {nameHash : NameHash} {now : ℕ}
    {records : ProvenNameRecords} (hg : Founded rootName nameHash now started' ended records)
    (hstart : started.states <:+ started'.states) (hend : ended.states <:+ ended'.states) :
    Founded rootName nameHash now started ended' records := by
  obtain ⟨value, proof, anchor, hg⟩ := hg
  exact ⟨value, proof, anchor, {
    verifies := hg.verifies
    content := hg.content
    canonical := (hg.canonical.mono hend).of_suffix hstart
    current := fun hnone => ((hg.current hnone).mono hend).of_suffix hstart
    records_eq := hg.records_eq }⟩

theorem gives_proveName (call : ProveNameCall) (hs : h.now.Sound) :
    Gives Allowed (fun h' records => ∃ now ∈ [call.first.now, call.second.now],
      Founded call.rootName call.nameHash now h h' records) (proveName (S := S) call) h := by
  refine Meets.bind (Meets.mono (Meets.and_extends (gives_cachedRecords call.first call.rootName
    call.nameHash hs) .refl) fun h₁ outcome houtcome => ?_)
  obtain ⟨hfirst, he₁⟩ := houtcome
  split
  · next records =>
    exact Meets.pure fun h₂ he₂ => ⟨_, List.mem_cons_self,
      Founded.mono hfirst List.suffix_rfl he₂.suffix⟩
  · refine Gives.bind ((gives_fetchAndStoreLiveProof call (sound_of_extends hs he₁)).and_extends.mono
      fun h₂ _ hfetch => ?_)
    have he₂ := he₁.trans hfetch.2
    exact (gives_cachedRecords call.second _ _ (sound_of_extends hs he₂)).mono fun h₃ records hg =>
      ⟨_, List.mem_cons_of_mem _ List.mem_cons_self, hg.mono he₂.suffix List.suffix_rfl⟩
  · exact Meets.pure fun _ _ => trivial

end Programs

/-! ## Requests and the sync at once -/

section Pools

variable {S : Type} [HeaderStore S] [LawfulHeaderStore S] [Digests]

/-- The requests for names that are under way, with the databases. -/
abbrev GatewayPool (S : Type) :=
  Pool (GatewayStores S) ProveNameCall (Except ResolverError ProvenNameRecords)

/-- The headers are a tree, and the cache is empty. -/
def IsInitial (s : GatewayStores S) : Prop := (∃ t, Represents s.headers t) ∧ s.values.rows = []

/-- What any requests and any actions of the sync lead to, in any order. -/
def GatewayPool.Reachable : GatewayPool S → Prop :=
  Pool.Reachable (fun call => (proveName call).run) GatewayStep IsInitial

variable {pool : GatewayPool S} {records : ProvenNameRecords}
  {thread : Thread (GatewayStores S) ProveNameCall (Except ResolverError ProvenNameRecords)}

/-- What is asked of the outcome of a call. -/
def IsAnswer (call : ProveNameCall) (started : History (GatewayStores S)) :
    History (GatewayStores S) → Except ResolverError ProvenNameRecords → Prop :=
  outcome (fun ended records => ∃ now ∈ [call.first.now, call.second.now],
    Founded call.rootName call.nameHash now started ended records) fun _ _ => True

theorem GatewayPool.Reachable.meets (h : pool.Reachable) :
    pool.history.now.Sound ∧ ∀ thread ∈ pool.threads,
      thread.rest.Meets Allowed (IsAnswer thread.input thread.started) pool.history := by
  refine Pool.Reachable.meets ?_ (fun _ _ hallowed hs => (hallowed hs).1)
    (fun _ _ => GatewayStep.allowed) ?_ h
  · exact fun s hs => ⟨hs.1, fun row hrow => absurd hrow (hs.2 ▸ List.not_mem_nil)⟩
  · exact fun call _ hs => gives_proveName call hs

theorem exists_founded (h : pool.Reachable) (hmem : thread ∈ pool.threads)
    (hdone : thread.rest = .done (.ok records)) :
    ∃ now ∈ [thread.input.first.now, thread.input.second.now],
      Founded thread.input.rootName thread.input.nameHash now thread.started pool.history
        records := by
  have hresult := h.meets.2 thread hmem
  rw [hdone] at hresult
  exact hresult.result

/-- Whatever is done to the databases at the same time, an answer is taken from a proof that
    verifies for the name under a tree root; since the call has begun a header with that root has been
    canonical, at most 144 blocks below a best header seen before; and only when the chain has not
    been known to be stale the answer is that the name does not exist. -/
theorem proveName_founded (h : pool.Reachable) (hmem : thread ∈ pool.threads)
    (hdone : thread.rest = .done (.ok records)) :
    ∃ (value : Option (List UInt8)) (proof : UrkelProof) (anchor : ResourceValueAnchor),
      proof.verify anchor.treeRoot thread.input.nameHash ∧
      proof.Says thread.input.rootName value ∧
      SeenCanonical thread.started pool.history anchor ∧
      (value = none → ∃ now ∈ [thread.input.first.now, thread.input.second.now],
        SeenCurrent now thread.started pool.history) ∧
      ProvenNameRecords.fromVerifiedResourceValue ⟨thread.input.rootName, thread.input.nameHash,
        value, true, some anchor⟩ = .ok records := by
  obtain ⟨now, hnow, value, proof, anchor, hg⟩ := exists_founded h hmem hdone
  exact ⟨value, proof, anchor, hg.verifies, hg.content, hg.canonical,
    fun hnone => ⟨now, hnow, hg.current hnone⟩, hg.records_eq⟩

end Pools

/-! ### A call alone -/

namespace ProvingSample

open Sample

/-- A chain of one block after the genesis block. -/
def headers : MemoryHeaderStore :=
  ⟨headersTo false spaced 1,
    canonicalOf (headersTo false spaced 1) (some (entryAt false spaced 1).hash),
    some (entryAt false spaced 1).hash⟩

theorem exists_represents : ∃ t, Represents headers t := by
  obtain ⟨m, hreach, hheaders, hbest⟩ := exists_store_of_spaced Nat.one_pos (by decide)
  obtain ⟨t, ht⟩ := hreach.represents
  refine ⟨t, ?_⟩
  have hstore : m = t.toStore := ht
  have hheaders' : t.headers = headersTo false spaced 1 := by
    rw [← hheaders, hstore]
    rfl
  have hbest' : t.best = some (entryAt false spaced 1).hash := by
    rw [← hbest, hstore]
    rfl
  rw [Represents, ChainTree.toStore, hheaders', hbest']
  rfl

def address : SocketAddr := ⟨.ofOctets 0 0 0 0, 0⟩

def peers : PeerManager := PeerManager.recordObservedHeight ⟨[], List.nodup_nil⟩ address 1 0

/-- A peer that proves that the tree is empty. -/
def script : PeerScript where
  connect := none
  handshakeSends := []
  handshakeIncoming := [.version { VersionPacket.default with height := 1 }, .verack]
  handshakeFailure := .connectionClosed
  sends := []
  incoming := [.proof ⟨.zero, .zero, ProofScheduler.deadendPayload⟩]
  failure := .connectionClosed

def cache : CacheInputs := ⟨none, none, none, none, none, 0⟩

theorem named : NameHash.fromName (Chars.of "a") = .ok .zero := by decide +kernel

def call : ProveNameCall where
  provider := ⟨1, false⟩
  rootName := Chars.of "a"
  nameHash := .zero
  named := named
  first := cache
  fetch := ⟨none, none, none, [], 0, .ok [], fun _ => script, fun _ => ⟨none, 0⟩⟩
  second := cache

def started : History (GatewayStores MemoryHeaderStore) := ⟨⟨headers, peers, .empty⟩, []⟩

def result : Except ResolverError ProvenNameRecords := ((proveName call).run.alone started).1

def ended : History (GatewayStores MemoryHeaderStore) := ((proveName call).run.alone started).2

def thread : Thread (GatewayStores MemoryHeaderStore) ProveNameCall
    (Except ResolverError ProvenNameRecords) :=
  ⟨call, started, .done result⟩

def pool : GatewayPool MemoryHeaderStore := ⟨ended, [thread]⟩

theorem reachable_pool : pool.Reachable :=
  Pool.Reachable.alone (.init ⟨exists_represents, rfl⟩) call

theorem exists_done : ∃ records : ProvenNameRecords, thread.rest = .done (.ok records) := by
  have hok : result.isOk = true := by decide +kernel
  cases hrun : result with
  | ok records => exact ⟨records, congrArg Atomic.done hrun⟩
  | error e =>
    rw [hrun] at hok
    cases hok

end ProvingSample

section Alone

open ProvingSample Sample

theorem proveName_founded_deadend : ∃ records : ProvenNameRecords,
    thread.rest = .done (.ok records) ∧
    ∃ (value : Option (List UInt8)) (proof : UrkelProof) (anchor : ResourceValueAnchor),
      proof.verify anchor.treeRoot .zero ∧ proof.Says (Chars.of "a") value ∧
      SeenCanonical started ended anchor ∧
      (value = none → ∃ now ∈ [0, 0], SeenCurrent now started ended) ∧
      ProvenNameRecords.fromVerifiedResourceValue ⟨Chars.of "a", .zero, value, true, some anchor⟩ =
        .ok records := by
  obtain ⟨records, hdone⟩ := exists_done
  exact ⟨records, hdone, proveName_founded reachable_pool List.mem_cons_self hdone⟩

end Alone

end Hns
