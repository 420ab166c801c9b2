import Hns.Chain.Tree

/-!
# What the insertions accept

`insertHeader` accepts its header and then records the entry
(`insertHeader_eq`); the loop of `insertHeaders` accepts, one after the other,
the headers of the batch that it meets first and that are not stored
(`foldlM_step_eq_ok`), and records them all at the end (`insertHeaders_eq`).
-/

namespace Hns

open Except EStateM HeaderStore

variable {S : Type} [HeaderStore S]

/-- The end of `insertHeader`, for an accepted header. -/
def recordHeader (stored : StoredHeader) : EStateM ChainError S StoredHeader := do
  putHeader stored
  let best ← reads bestHeader
  let extendsBest := best.any fun best => stored.header.prevBlock = best.hash
  if shouldPromote best stored then
    if extendsBest then promoteCanonicalTip stored
    else promoteBestHash stored.hash
  return stored

/-- The end of `insertHeaders`, for the accepted headers. -/
def recordHeaders (accepted : List StoredHeader) : EStateM ChainError S (List StoredHeader) := do
  if accepted.isEmpty then return accepted
  let best ← reads bestHeader
  let (bestIndex, bestCandidate) ←
    checked (ofOption .missingBestHeader (lastMaxByWork accepted))
  let extendsBest := best.any fun best =>
    (accepted.head?.any fun header => header.header.prevBlock = best.hash) &&
      linked (accepted.take (bestIndex + 1))
  putHeaders accepted
  if shouldPromote best bestCandidate then
    if extendsBest then promoteCanonicalTips (accepted.take (bestIndex + 1))
    else promoteBestHash bestCandidate.hash
  return accepted

/-- How `insertHeaders` moves the tip to a candidate: by extending the index when the accepted
    headers up to it stand on the tip, each on the one before. -/
def moveTip (tip : Option StoredHeader) (accepted : List StoredHeader) (index : ℕ)
    (candidate : StoredHeader) : EStateM ChainError S Unit :=
  if tip.any fun tip =>
      (accepted.head?.any fun header => header.header.prevBlock = tip.hash) &&
        linked (accepted.take (index + 1)) then
    promoteCanonicalTips (accepted.take (index + 1))
  else promoteBestHash candidate.hash

/-- Recording headers that can be put: the tip moves if the candidate has more work. -/
theorem recordHeaders_eq {accepted : List StoredHeader} {s s₁ : S} {tip : Option StoredHeader}
    {index : ℕ} {candidate : StoredHeader} (hne : accepted ≠ []) (htip : bestHeader s = .ok tip)
    (hmax : lastMaxByWork accepted = some (index, candidate))
    (hput : putHeaders accepted s = .ok () s₁) :
    recordHeaders accepted s =
      if shouldPromote tip candidate then
        (moveTip tip accepted index candidate >>= fun _ => pure accepted) s₁
      else .ok accepted s₁ := by
  rw [recordHeaders, if_neg (by simpa using hne), reads_bind, htip]
  dsimp only
  rw [hmax, ofOption_some, checked_bind]
  dsimp only
  rw [bind_ok hput, moveTip]
  split_ifs <;> rfl

/-! ## The header with the most work -/

theorem lastMaxByWork_append (l : List StoredHeader) (stored : StoredHeader) :
    lastMaxByWork (l ++ [stored]) =
      match lastMaxByWork l with
      | some (index, greatest) =>
        if stored.chainwork < greatest.chainwork then some (index, greatest)
        else some (l.length, stored)
      | none => some (l.length, stored) := by
  rw [lastMaxByWork, List.zipIdx_append, List.foldl_append]
  simp only [List.zipIdx_cons, List.zipIdx_nil, List.foldl_cons, List.foldl_nil, zero_add]
  rfl

/-- `max_by` finds an element at least as great as all of them, greater than those after it. -/
theorem lastMaxByWork_spec {l : List StoredHeader} (hne : l ≠ []) :
    ∃ index greatest, lastMaxByWork l = some (index, greatest) ∧ l[index]? = some greatest ∧
      (∀ stored ∈ l, stored.chainwork ≤ greatest.chainwork) ∧
      ∀ stored ∈ l.drop (index + 1), stored.chainwork < greatest.chainwork := by
  induction l using List.reverseRecOn with
  | nil => exact absurd rfl hne
  | append_singleton l last ih =>
    rw [lastMaxByWork_append]
    rcases eq_or_ne l [] with rfl | hl
    · exact ⟨0, last, rfl, rfl, by simp, by simp⟩
    · obtain ⟨index, greatest, hmax, hget, hle, hlt⟩ := ih hl
      have hindex : index < l.length := (List.getElem?_eq_some_iff.1 hget).1
      rw [hmax]
      dsimp only
      split_ifs with hlast
      · refine ⟨index, greatest, rfl, ?_, ?_, ?_⟩
        · rw [List.getElem?_append_left hindex, hget]
        · intro stored hmem
          rcases List.mem_append.1 hmem with hmem | hmem
          · exact hle stored hmem
          · rw [List.mem_singleton.1 hmem]
            exact hlast.le
        · intro stored hmem
          rw [List.drop_append_of_le_length hindex] at hmem
          rcases List.mem_append.1 hmem with hmem | hmem
          · exact hlt stored hmem
          · rwa [List.mem_singleton.1 hmem]
      · refine ⟨l.length, last, rfl, by simp, ?_, by simp⟩
        intro stored hmem
        rcases List.mem_append.1 hmem with hmem | hmem
        · exact (hle stored hmem).trans (not_lt.1 hlast)
        · rw [List.mem_singleton.1 hmem]

theorem linked_iff (l : List StoredHeader) :
    linked l ↔ l.IsChain fun a b => b.header.prevBlock = a.hash := by
  induction l using linked.induct with
  | case1 => simp [linked]
  | case2 stored => simp [linked]
  | case3 first second l ih => simp [linked, ih]

variable [Digests] {policy : DifficultyPolicy}

theorem insertHeader_eq (header : BlockHeader) (s : S) :
    insertHeader policy header s =
      match accept policy (getHeader s) header with
      | .error e => .error e s
      | .ok stored => recordHeader stored s := by
  rw [insertHeader, accept, reads_bind]
  cases ofOption ChainError.unknownParent (getHeader s header.prevBlock) with
  | error e => rfl
  | ok parent =>
    simp only [ok_bind]
    rw [reads_bind]
    cases validateDifficultyBits (getHeader s) policy header parent with
    | error e => rfl
    | ok u =>
      simp only [ok_bind]
      rw [checked_bind]
      cases (verifyPow header.hash header.bits).mapError ChainError.pow with
      | error e => rfl
      | ok b =>
        cases b with
        | false => rfl
        | true =>
          simp only [ok_bind, Bool.not_true, Bool.false_eq_true, if_false]
          rw [checked_bind]
          cases (Chainwork.fromBits header.bits).mapError ChainError.pow <;> rfl

/-! ## The loop of a batch -/

/-- The headers of a list that are neither known nor seen before, by their hash. -/
def unseen (known : Headers) : List Hash → List BlockHeader → List BlockHeader
  | _, [] => []
  | seen, header :: headers =>
    if header.hash ∈ seen ∨ (known header.hash).isSome then
      unseen known (header.hash :: seen) headers
    else header :: unseen known (header.hash :: seen) headers

/-- Headers with distinct hashes, none of them known, are all new. -/
theorem unseen_eq_self {known : Headers} {seen : List Hash} {headers : List BlockHeader}
    (hnodup : (headers.map BlockHeader.hash).Nodup)
    (h : ∀ header ∈ headers, header.hash ∉ seen ∧ known header.hash = none) :
    unseen known seen headers = headers := by
  induction headers generalizing seen with
  | nil => rfl
  | cons header headers ih =>
    rw [List.map_cons, List.nodup_cons] at hnodup
    obtain ⟨hseen, hknown⟩ := h header List.mem_cons_self
    rw [unseen, if_neg (by simp [hseen, hknown]), ih hnodup.2]
    intro header' h'
    obtain ⟨hseen', hknown'⟩ := h header' (List.mem_cons_of_mem _ h')
    refine ⟨fun hmem => ?_, hknown'⟩
    rcases List.mem_cons.1 hmem with heq | hmem
    · exact hnodup.1 (heq ▸ List.mem_map_of_mem h')
    · exact hseen' hmem

/-- Accepted headers are all new. -/
theorem Grows.unseen_eq_self {known : Headers} {l : List StoredHeader}
    (h : Grows policy known l) :
    unseen known [] (l.map StoredHeader.header) = l.map StoredHeader.header := by
  have hhash : (l.map StoredHeader.header).map BlockHeader.hash = l.map StoredHeader.hash := by
    rw [List.map_map]
    exact List.map_congr_left fun stored hs => (hash_of_accept (h.accept hs)).symm
  refine Hns.unseen_eq_self (hhash ▸ h.nodup) fun header hmem => ⟨List.not_mem_nil, ?_⟩
  obtain ⟨stored, hs, rfl⟩ := List.mem_map.1 hmem
  rw [← hash_of_accept (h.accept hs), h.fresh stored hs]

/-- What the tables of a batch hold. -/
structure Batch.Inv (policy : DifficultyPolicy) (known : Headers) (batch : Batch) : Prop where
  grows : Grows policy known batch.accepted
  pending_eq : batch.pending.overlay known = known.add batch.accepted
  mem_seen {stored} (h : stored ∈ batch.accepted) : stored.hash ∈ batch.seen
  work_eq {bits work} (h : batch.chainworkByBits bits = some work) :
    Chainwork.fromBits bits = .ok work

theorem Batch.Inv.empty (known : Headers) : Batch.empty.Inv policy known where
  grows := .nil known
  pending_eq := Table.overlay_empty known
  mem_seen h := absurd h List.not_mem_nil
  work_eq h := by cases h

theorem Batch.Inv.cachedWork_eq {known : Headers} {batch : Batch} (inv : batch.Inv policy known)
    (bits : UInt32) :
    cachedWork batch.chainworkByBits bits = (Chainwork.fromBits bits).mapError .pow := by
  rw [cachedWork]
  cases h : batch.chainworkByBits bits with
  | none => rfl
  | some work =>
    rw [inv.work_eq h]
    rfl

/-- The round of a header that has been seen or is known already. -/
theorem Batch.step_of_seen {known : Headers} {batch : Batch} {header : BlockHeader}
    (h : header.hash ∈ batch.seen ∨ (known header.hash).isSome) :
    Batch.step policy known batch header =
      .ok { batch with seen := header.hash :: batch.seen } := if_pos h

/-- The round of a new header: it is accepted against all the headers known so far. -/
theorem Batch.step_eq_ok {known : Headers} {batch : Batch} {header : BlockHeader} {batch' : Batch}
    (inv : batch.Inv policy known)
    (h : ¬(header.hash ∈ batch.seen ∨ (known header.hash).isSome)) :
    Batch.step policy known batch header = .ok batch' ↔
      ∃ stored work, accept policy (known.add batch.accepted) header = .ok stored ∧
        Chainwork.fromBits header.bits = .ok work ∧
        batch' =
          { accepted := batch.accepted ++ [stored]
            pending := batch.pending.insert header.hash stored
            seen := header.hash :: batch.seen
            chainworkByBits := batch.chainworkByBits.insert header.bits work } := by
  have hparent : (batch.pending header.prevBlock).or (known header.prevBlock) =
      known.add batch.accepted header.prevBlock := congrFun inv.pending_eq header.prevBlock
  rw [Batch.step]
  dsimp only
  rw [if_neg h, hparent, inv.cachedWork_eq, accept]
  simp only [validateDifficultyBitsWithPending_eq, inv.pending_eq]
  cases ofOption ChainError.unknownParent (known.add batch.accepted header.prevBlock) with
  | error e => simp
  | ok parent =>
    simp only [ok_bind]
    cases validateDifficultyBits (known.add batch.accepted) policy header parent with
    | error e => simp
    | ok u =>
      simp only [ok_bind]
      cases (verifyPow header.hash header.bits).mapError ChainError.pow with
      | error e => simp
      | ok b =>
        cases b with
        | false => exact iff_of_false (by rintro ⟨⟩) (by rintro ⟨_, _, ⟨⟩, -⟩)
        | true =>
          cases Chainwork.fromBits header.bits with
          | error e => exact iff_of_false (by rintro ⟨⟩) (by rintro ⟨_, _, ⟨⟩, -⟩)
          | ok work =>
            constructor
            · rintro ⟨⟩
              exact ⟨_, _, rfl, rfl, rfl⟩
            · rintro ⟨_, _, ⟨⟩, ⟨⟩, rfl⟩
              rfl

theorem Batch.Inv.step_of_seen {known : Headers} {batch : Batch} (inv : batch.Inv policy known)
    (hash : Hash) : Batch.Inv policy known { batch with seen := hash :: batch.seen } where
  grows := inv.grows
  pending_eq := inv.pending_eq
  mem_seen h := List.mem_cons_of_mem _ (inv.mem_seen h)
  work_eq := inv.work_eq

theorem Batch.Inv.step {known : Headers} {batch : Batch} (inv : batch.Inv policy known)
    {header : BlockHeader} (h : ¬(header.hash ∈ batch.seen ∨ (known header.hash).isSome))
    {stored : StoredHeader} {work : ℕ}
    (hacc : accept policy (known.add batch.accepted) header = .ok stored)
    (hwork : Chainwork.fromBits header.bits = .ok work) :
    Batch.Inv policy known
      { accepted := batch.accepted ++ [stored]
        pending := batch.pending.insert header.hash stored
        seen := header.hash :: batch.seen
        chainworkByBits := batch.chainworkByBits.insert header.bits work } := by
  rw [not_or, Option.not_isSome_iff_eq_none] at h
  have hheader := header_of_accept hacc
  have hhash := hash_of_accept hacc
  have hfresh : known.add batch.accepted stored.hash = none := by
    rw [hhash]
    refine (Table.insertAll_of_not_mem known fun hmem => ?_).trans h.2
    obtain ⟨stored', hs', heq⟩ := List.mem_map.1 hmem
    exact h.1 (heq ▸ inv.mem_seen hs')
  constructor
  · exact inv.grows.append (.cons (hheader.symm ▸ hacc) hfresh (.nil _))
  · rw [Table.insert_overlay, inv.pending_eq, Headers.add_append, ← hhash]
    rfl
  · intro stored' h'
    rcases List.mem_append.1 h' with h' | h'
    · exact List.mem_cons_of_mem _ (inv.mem_seen h')
    · rw [List.mem_singleton.1 h', hhash]
      exact List.mem_cons_self
  · intro bits work' h'
    rcases Table.insert_eq_some h' with ⟨rfl, rfl⟩ | ⟨-, h'⟩
    · exact hwork
    · exact inv.work_eq h'

/-- What a batch that is read to its end has accepted: its new headers, in order. -/
theorem Batch.Inv.foldlM {known : Headers} {headers : List BlockHeader} {batch batch' : Batch}
    (inv : batch.Inv policy known)
    (h : headers.foldlM (Batch.step policy known) batch = .ok batch') :
    batch'.Inv policy known ∧ ∃ l, batch'.accepted = batch.accepted ++ l ∧
      l.map StoredHeader.header = unseen known batch.seen headers := by
  induction headers generalizing batch with
  | nil =>
    cases h
    exact ⟨inv, [], (List.append_nil _).symm, rfl⟩
  | cons header headers ih =>
    rw [List.foldlM_cons, bind_eq_ok] at h
    obtain ⟨batch₁, hstep, h⟩ := h
    rw [unseen]
    split_ifs with hseen
    · rw [Batch.step_of_seen hseen] at hstep
      cases hstep
      exact ih (inv.step_of_seen _) h
    · obtain ⟨stored, work, hacc, hwork, rfl⟩ := (Batch.step_eq_ok inv hseen).1 hstep
      obtain ⟨inv', l, hl, hmap⟩ := ih (inv.step hseen hacc hwork) h
      refine ⟨inv', stored :: l, by simp [hl], ?_⟩
      rw [List.map_cons, hmap, header_of_accept hacc]

/-- A batch whose new headers are accepted one after the other is read to its end. -/
theorem Batch.Inv.exists_foldlM {known : Headers} {headers : List BlockHeader} {batch : Batch}
    (inv : batch.Inv policy known) {l : List StoredHeader}
    (hgrows : Grows policy (known.add batch.accepted) l)
    (hmap : l.map StoredHeader.header = unseen known batch.seen headers) :
    ∃ batch', headers.foldlM (Batch.step policy known) batch = .ok batch' ∧
      batch'.accepted = batch.accepted ++ l := by
  induction headers generalizing batch l with
  | nil =>
    rw [unseen, List.map_eq_nil_iff] at hmap
    subst hmap
    exact ⟨batch, rfl, (List.append_nil _).symm⟩
  | cons header headers ih =>
    rw [unseen] at hmap
    rw [List.foldlM_cons]
    split_ifs at hmap with hseen
    · rw [Batch.step_of_seen hseen]
      exact ih (inv.step_of_seen _) hgrows hmap
    · cases hgrows with
      | nil => simp at hmap
      | @cons _ stored l hacc hfresh hrest =>
        rw [List.map_cons, List.cons.injEq] at hmap
        obtain ⟨hheader, hmap⟩ := hmap
        rw [hheader] at hacc
        obtain ⟨_, work, -, -, -, hwork, -⟩ := accept_eq_ok.1 hacc
        obtain ⟨batch', hfold, haccepted⟩ := ih (inv.step hseen hacc hwork)
          (by rw [Headers.add_append]; exact hrest) hmap
        refine ⟨batch', ?_, by simp [haccepted]⟩
        rw [(Batch.step_eq_ok inv hseen).2 ⟨stored, work, hacc, hwork, rfl⟩]
        exact hfold

/-- A batch is read, or fails with the store as it was; then its new headers are recorded. -/
theorem insertHeaders_cases (headers : List BlockHeader) (s : S) :
    (∃ e, insertHeaders policy headers s = .error e s) ∨
      ∃ accepted, Grows policy (getHeader s) accepted ∧
        accepted.map StoredHeader.header = unseen (getHeader s) [] headers ∧
        insertHeaders policy headers s = recordHeaders accepted s := by
  rw [insertHeaders, reads_bind]
  cases h : headers.foldlM (Batch.step policy (getHeader s)) Batch.empty with
  | error e => exact .inl ⟨e, rfl⟩
  | ok batch =>
    obtain ⟨inv, l, hl, hmap⟩ := (Batch.Inv.empty (getHeader s)).foldlM h
    rw [Batch.empty, List.nil_append] at hl
    exact .inr ⟨batch.accepted, inv.grows, hl ▸ hmap, rfl⟩

/-- A batch whose new headers are accepted one after the other is recorded. -/
theorem insertHeaders_of_grows {headers : List BlockHeader} {s : S}
    {accepted : List StoredHeader} (hgrows : Grows policy (getHeader s) accepted)
    (hmap : accepted.map StoredHeader.header = unseen (getHeader s) [] headers) :
    insertHeaders policy headers s = recordHeaders accepted s := by
  obtain ⟨batch, hfold, haccepted⟩ := (Batch.Inv.empty (getHeader s)).exists_foldlM hgrows hmap
  rw [Batch.empty, List.nil_append] at haccepted
  rw [insertHeaders, reads_bind, hfold, ← haccepted]
  rfl

end Hns
