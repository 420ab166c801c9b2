import Hns.Chain.Canonical
import Hns.Chain.Loop

/-!
# The chain as a tree with a heaviest tip

A `ChainTree` is what a chain means: a valid tree of headers and the hash of
one of those with the most work. Extending it by new headers moves the tip only
to a header with strictly more work than the tip there is.

Recording headers refines this: from a store that represents a tree
(`Represents`), `recordHeader` and `recordHeaders` succeed and leave a store
that represents the extended tree, whichever way they update the index.
-/

namespace Hns

open Except EStateM HeaderStore

/-- The hash is that of a header with the most work, or there is no header. -/
def Heaviest (headers : Headers) : Option Hash → Prop
  | none => headers = .empty
  | some hash => ∃ tip, headers hash = some tip ∧
      ∀ hash' stored, headers hash' = some stored → stored.chainwork ≤ tip.chainwork

/-- A valid tree of headers with a heaviest tip. -/
structure ChainTree [Digests] where
  headers : Headers
  best : Option Hash
  valid : ValidTree headers
  heaviest : Heaviest headers best

namespace ChainTree

variable [Digests] (t : ChainTree)

/-- The entry of the tip. -/
def tip : Option StoredHeader := t.best.bind t.headers

/-- The contents of a store for the tree. -/
def toStore : MemoryHeaderStore := ⟨t.headers, canonicalOf t.headers t.best, t.best⟩

/-- The tree without headers. -/
def empty : ChainTree := ⟨.empty, none, .empty, rfl⟩

/-- New headers for a tree, with one of those that have the most work. -/
structure Extension where
  accepted : List StoredHeader
  grows : Grows .mainnet t.headers accepted
  bounded : HeightsBounded (t.headers.add accepted)
  candidate : StoredHeader
  candidate_mem : candidate ∈ accepted
  le_candidate {stored} (h : stored ∈ accepted) : stored.chainwork ≤ candidate.chainwork

variable {t}

theorem tip_eq_some_iff {tip : StoredHeader} :
    t.tip = some tip ↔ t.best = some tip.hash ∧ t.headers tip.hash = some tip := by
  rw [ChainTree.tip, Option.bind_eq_some_iff]
  constructor
  · rintro ⟨hash, hbest, htip⟩
    rw [t.valid.hash_eq htip]
    exact ⟨hbest, htip⟩
  · rintro ⟨hbest, htip⟩
    exact ⟨_, hbest, htip⟩

/-- A tree has a tip, heavier than all its headers, or it is empty. -/
theorem tip_cases (t : ChainTree) :
    (t.best = none ∧ t.tip = none ∧ t.headers = .empty) ∨
      ∃ tip, t.tip = some tip ∧ t.best = some tip.hash ∧ t.headers tip.hash = some tip ∧
        ∀ hash stored, t.headers hash = some stored → stored.chainwork ≤ tip.chainwork := by
  have h := t.heaviest
  cases hbest : t.best with
  | none =>
    rw [hbest] at h
    exact .inl ⟨rfl, by rw [ChainTree.tip, hbest]; rfl, h⟩
  | some hash =>
    rw [hbest] at h
    obtain ⟨tip, htip, hmax⟩ := h
    have hhash := t.valid.hash_eq htip
    subst hhash
    exact .inr ⟨tip, tip_eq_some_iff.2 ⟨hbest, htip⟩, rfl, htip, hmax⟩

namespace Extension

variable (e : t.Extension)

theorem headers_candidate : t.headers.add e.accepted e.candidate.hash = some e.candidate :=
  e.grows.get e.candidate_mem

theorem valid : ValidTree (t.headers.add e.accepted) := t.valid.add e.grows e.bounded

/-- The tip once the new headers are there. -/
def best : Option Hash :=
  if shouldPromote t.tip e.candidate then some e.candidate.hash else t.best

theorem heaviest : Heaviest (t.headers.add e.accepted) e.best := by
  rw [best]
  rcases t.tip_cases with ⟨-, htip, hempty⟩ | ⟨tip, htip, hbest, hmem, hmax⟩
  · rw [htip, shouldPromote, if_pos rfl]
    refine ⟨e.candidate, e.headers_candidate, fun hash stored h => ?_⟩
    rcases Table.insertAll_eq_some h with ⟨_, hin, -, rfl⟩ | h
    · exact e.le_candidate hin
    · rw [hempty] at h
      cases h
  · rw [htip, hbest, shouldPromote]
    split_ifs with hlt
    · rw [decide_eq_true_eq] at hlt
      refine ⟨e.candidate, e.headers_candidate, fun hash stored h => ?_⟩
      rcases Table.insertAll_eq_some h with ⟨_, hin, -, rfl⟩ | h
      · exact e.le_candidate hin
      · exact (hmax _ _ h).trans hlt.le
    · rw [decide_eq_true_eq, not_lt] at hlt
      refine ⟨tip, e.grows.sub _ _ hmem, fun hash stored h => ?_⟩
      rcases Table.insertAll_eq_some h with ⟨_, hin, -, rfl⟩ | h
      · exact (e.le_candidate hin).trans hlt
      · exact hmax _ _ h

end Extension

/-- The tree with some new headers. -/
def extend (t : ChainTree) (e : t.Extension) : ChainTree where
  headers := t.headers.add e.accepted
  best := e.best
  valid := e.valid
  heaviest := e.heaviest

/-- One new header. -/
def Extension.single {stored : StoredHeader}
    (haccept : accept .mainnet t.headers stored.header = .ok stored)
    (hfresh : t.headers stored.hash = none) (hbounded : HeightsBounded (t.headers.add [stored])) :
    t.Extension where
  accepted := [stored]
  grows := .cons haccept hfresh (.nil _)
  bounded := hbounded
  candidate := stored
  candidate_mem := List.mem_singleton.2 rfl
  le_candidate h := by rw [List.mem_singleton.1 h]

/-- A tree that can be extended has a tip. -/
theorem Extension.exists_tip (e : t.Extension) : ∃ tip, t.tip = some tip := by
  rcases t.tip_cases with ⟨-, -, hempty⟩ | ⟨tip, htip, -⟩
  · have hgrows := e.grows
    have hmem := e.candidate_mem
    rw [hempty] at hgrows
    generalize e.accepted = accepted at hgrows hmem
    cases hgrows with
    | nil => cases hmem
    | cons haccept _ _ =>
      obtain ⟨parent, _, hparent, -⟩ := accept_eq_ok.1 haccept
      cases hparent
  · exact ⟨tip, htip⟩

/-- The tip once the tree is extended. -/
theorem tip_extend (e : t.Extension) :
    (t.extend e).tip = if shouldPromote t.tip e.candidate then some e.candidate else t.tip := by
  change e.best.bind (t.headers.add e.accepted) = _
  rw [Extension.best]
  split_ifs with h
  · exact e.headers_candidate
  · rcases t.tip_cases with ⟨-, htip, -⟩ | ⟨tip, htip, hbest, hmem, -⟩
    · simp [htip, shouldPromote] at h
    · rw [htip, hbest]
      exact e.grows.sub _ _ hmem

theorem best_eq (t : ChainTree) : t.best = t.tip.map StoredHeader.hash := by
  rcases t.tip_cases with ⟨hbest, htip, -⟩ | ⟨tip, htip, hbest, -⟩
  · rw [hbest, htip]
    rfl
  · rw [hbest, htip]
    rfl

/-- Trees with the same headers are the same to a store when they have the same tip. -/
theorem toStore_eq_iff {t' : ChainTree} (h : t.headers = t'.headers) :
    t.toStore = t'.toStore ↔ t.tip = t'.tip := by
  constructor
  · intro hstore
    rw [ChainTree.tip, ChainTree.tip, h, show t.best = t'.best from
      congrArg MemoryHeaderStore.best hstore]
  · intro htip
    rw [toStore, toStore, best_eq t, best_eq t', htip, h]

theorem toStore_extend (e : t.Extension) :
    (t.extend e).toStore =
      if shouldPromote t.tip e.candidate then
        (t.toStore.put e.accepted).withTip (some e.candidate.hash)
      else t.toStore.put e.accepted := by
  simp only [extend, toStore, Extension.best]
  split_ifs with h
  · rfl
  · rcases t.tip_cases with ⟨-, htip, -⟩ | ⟨tip, -, hbest, hmem, -⟩
    · simp [htip, shouldPromote] at h
    · have := t.valid.canonicalOf_sub e.grows.sub hmem
      simp only [MemoryHeaderStore.put, hbest, this]

end ChainTree

/-! ## Recording headers -/

variable {S : Type} [HeaderStore S] [Digests]

/-- The contents of the store are those of the tree. -/
def Represents (s : S) (t : ChainTree) : Prop := view s = t.toStore

namespace Represents

variable {s : S} {t : ChainTree} (h : Represents s t)

include h

theorem getHeader_eq : getHeader s = t.headers := congrArg MemoryHeaderStore.headers h

theorem bestHash_eq : bestHash s = t.best := congrArg MemoryHeaderStore.best h

theorem bounded : HeightsBounded (getHeader s) := by
  rw [h.getHeader_eq]
  exact t.valid.bounded

theorem bestHeader_eq : bestHeader s = .ok t.tip := by
  rw [bestHeader, h.bestHash_eq, h.getHeader_eq]
  rcases t.tip_cases with ⟨hbest, htip, -⟩ | ⟨tip, htip, hbest, hmem, -⟩
  · rw [hbest, htip]
  · rw [hbest, htip]
    simp only [hmem, ofOption_some]
    rfl

end Represents

/-! ### Moving the tip -/

/-- Headers of an extension on top of a stored one, each with the one before as its parent. -/
theorem ChainTree.Extension.isChain {t : ChainTree} (e : t.Extension) {tip : StoredHeader}
    (htip : t.headers tip.hash = some tip) {l : List StoredHeader} (hl : ∀ b ∈ l, b ∈ e.accepted)
    (hlinked : (tip :: l).IsChain fun a b => b.header.prevBlock = a.hash) :
    (tip :: l).IsChain IsChild := by
  refine hlinked.imp_of_mem_tail_imp fun a b ha hb h => ?_
  have ha : t.headers.add e.accepted a.hash = some a := by
    rcases List.mem_cons.1 ha with rfl | ha
    · exact e.grows.sub _ _ htip
    · exact e.grows.get (hl a ha)
  obtain ⟨parent, hp, hchild⟩ := e.valid.parent_of_accept (e.grows.accept (hl b hb))
  rw [parentIn, h, ha, Option.some.injEq] at hp
  exact hp ▸ hchild

section

variable {s s' : S} {t : ChainTree} (h : Represents s t) {accepted : List StoredHeader}
  (hgrows : Grows .mainnet t.headers accepted) (hput : view s' = (view s).put accepted)

include h hput

theorem getHeader_of_put : getHeader s' = t.headers.add accepted := by
  rw [← view_headers, hput, h]
  rfl

include hgrows

/-- The tip is still stored. -/
theorem bestHeader_of_put : bestHeader s' = .ok t.tip := by
  have hget := getHeader_of_put h hput
  have hbest : bestHash s' = t.best := by
    rw [← view_best, hput, h]
    rfl
  rw [bestHeader, hbest, hget]
  rcases t.tip_cases with ⟨hbest, htip, -⟩ | ⟨tip, htip, hbest, hmem, -⟩
  · rw [hbest, htip]
  · rw [hbest, htip]
    simp only [hgrows.sub _ _ hmem, ofOption_some]
    rfl

end

section

variable {s s' : S} {t : ChainTree} (h : Represents s t)
  (e : t.Extension) (hput : view s' = (view s).put e.accepted)

include h hput

/-- The tip stays when no new header has more work. -/
theorem represents_of_not_promote (hp : shouldPromote t.tip e.candidate = false) :
    Represents s' (t.extend e) := by
  rw [Represents, ChainTree.toStore_extend, hp, hput, h]
  rfl

/-- The candidate becomes the tip when it has more work. -/
theorem represents_of_promote (hp : shouldPromote t.tip e.candidate) {s'' : S}
    (hview : view s'' = (view s').withTip (some e.candidate.hash)) :
    Represents s'' (t.extend e) := by
  rw [Represents, ChainTree.toStore_extend, if_pos hp, hview, hput, h]

/-- Rebuilding the index for the candidate of an extension. -/
theorem promoteBestHash_candidate [LawfulHeaderStore S] :
    Succeeds s' (promoteBestHash e.candidate.hash)
      ((view s').withTip (some e.candidate.hash)) := by
  have hget := getHeader_of_put h hput
  refine promoteBestHash_ok ?_ ?_
  · rw [hget]
    exact e.valid
  · rw [hget]
    exact e.headers_candidate

/-- Extending the index from the tip up to the candidate. -/
theorem promote_candidate {tip : StoredHeader} (htip : t.tip = some tip)
    {l : List StoredHeader} (hl : ∀ b ∈ l, b ∈ e.accepted)
    (hlast : l.getLast? = some e.candidate)
    (hlinked : (tip :: l).IsChain fun a b => b.header.prevBlock = a.hash) :
    (view s').promote l = (view s').withTip (some e.candidate.hash) := by
  have hget := getHeader_of_put h hput
  obtain ⟨hbest, hmem⟩ := ChainTree.tip_eq_some_iff.1 htip
  have hchain := e.isChain hmem hl hlinked
  have hcanonical : (view s').canonical = canonicalOf (t.headers.add e.accepted) (some tip.hash) := by
    rw [hput, h, t.valid.canonicalOf_sub e.grows.sub hmem, ← hbest]
    rfl
  have hext := insertAll_canonicalOf (e.grows.sub _ _ hmem) (fun b hb => e.grows.get (hl b hb))
    hchain
  rw [List.getLastD_eq_getLast?, hlast, Option.getD_some] at hext
  rw [MemoryHeaderStore.promote, hcanonical, hext, hlast, MemoryHeaderStore.withTip,
    view_headers, hget]
  rfl

end

/-- Recording an accepted header extends the tree by it. -/
theorem recordHeader_ok [LawfulHeaderStore S] {s : S} {t : ChainTree} (h : Represents s t)
    {stored : StoredHeader} (haccept : accept .mainnet t.headers stored.header = .ok stored)
    (hfresh : t.headers stored.hash = none) (hbounded : HeightsBounded (t.headers.add [stored])) :
    ∃ s', recordHeader stored s = .ok stored s' ∧
      Represents s' (t.extend (.single haccept hfresh hbounded)) := by
  obtain ⟨e, he⟩ : ∃ e : t.Extension, e = .single haccept hfresh hbounded := ⟨_, rfl⟩
  obtain ⟨hl, hc⟩ : e.accepted = [stored] ∧ e.candidate = stored := he ▸ ⟨rfl, rfl⟩
  have hnew : getHeader s stored.hash = none := by rwa [h.getHeader_eq]
  obtain ⟨s₁, hput, hview⟩ := LawfulHeaderStore.putHeader_ok hnew
  have hview : view s₁ = (view s).put e.accepted := by rw [hl, hview]
  rw [recordHeader, bind_ok hput, reads_bind, bestHeader_of_put h e.grows hview, ← he]
  dsimp only
  rw [← hc]
  by_cases hp : shouldPromote t.tip e.candidate
  · suffices ∃ s₂, (if t.tip.any fun best => e.candidate.header.prevBlock = best.hash then
        promoteCanonicalTip e.candidate else promoteBestHash e.candidate.hash) s₁ = .ok () s₂ ∧
          view s₂ = (view s₁).withTip (some e.candidate.hash) by
      obtain ⟨s₂, hs₂, hview₂⟩ := this
      refine ⟨s₂, ?_, represents_of_promote h e hview hp hview₂⟩
      rw [if_pos hp]
      split_ifs at hs₂ ⊢
      all_goals exact bind_ok hs₂
    split_ifs with hext
    · obtain ⟨tip, htip, hprev⟩ := (Option.any_eq_true ..).1 hext
      rw [decide_eq_true_eq] at hprev
      have hmem : getHeader s₁ e.candidate.hash ≠ none := by
        rw [getHeader_of_put h hview, e.headers_candidate]
        simp
      obtain ⟨s₂, hs₂, hview₂⟩ := LawfulHeaderStore.promoteCanonicalTip_ok hmem
      refine ⟨s₂, hs₂, hview₂.trans (promote_candidate h e hview htip ?_ rfl ?_)⟩
      · rintro b hb
        rw [List.mem_singleton.1 hb]
        exact e.candidate_mem
      · exact .cons_cons hprev (.singleton _)
    · exact promoteBestHash_candidate h e hview
  · rw [Bool.not_eq_true] at hp
    refine ⟨s₁, ?_, represents_of_not_promote h e hview hp⟩
    rw [hp]
    rfl

/-- Moving the tip to the candidate of an extension, once its headers are stored. -/
theorem moveTip_ok [LawfulHeaderStore S] {s s₁ : S} {t : ChainTree} (h : Represents s t)
    (e : t.Extension) (hput : view s₁ = (view s).put e.accepted) {index : ℕ}
    (hget : e.accepted[index]? = some e.candidate) :
    Succeeds s₁ (moveTip t.tip e.accepted index e.candidate)
      ((view s₁).withTip (some e.candidate.hash)) := by
  rw [moveTip]
  split_ifs with hext
  · obtain ⟨tip, htip, hext⟩ := (Option.any_eq_true ..).1 hext
    rw [Bool.and_eq_true, linked_iff] at hext
    have hsub : ∀ b ∈ e.accepted.take (index + 1), b ∈ e.accepted :=
      fun b => List.mem_of_mem_take
    have hmem : ∀ b ∈ e.accepted.take (index + 1), getHeader s₁ b.hash ≠ none := by
      intro b hb
      rw [getHeader_of_put h hput, e.grows.get (hsub b hb)]
      simp
    obtain ⟨s₂, hs₂, hview₂⟩ := LawfulHeaderStore.promoteCanonicalTips_ok hmem
    refine ⟨s₂, hs₂, hview₂.trans (promote_candidate h e hput htip hsub ?_ ?_)⟩
    · rw [List.getLast?_take, if_neg (Nat.succ_ne_zero index), Nat.add_sub_cancel, hget]
      rfl
    · refine List.isChain_cons.2 ⟨fun b hb => ?_, hext.2⟩
      rw [List.head?_take, if_neg (Nat.succ_ne_zero index)] at hb
      obtain ⟨b', hb', hprev⟩ := (Option.any_eq_true ..).1 hext.1
      rw [Option.mem_def.1 hb, Option.some.injEq] at hb'
      simpa [hb'] using hprev
  · exact promoteBestHash_candidate h e hput

/-- Recording the headers accepted in a batch extends the tree by them. The candidate is the
    last of those with the most work. -/
theorem recordHeaders_ok [LawfulHeaderStore S] {s : S} {t : ChainTree} (h : Represents s t)
    {accepted : List StoredHeader} (hne : accepted ≠ []) (hgrows : Grows .mainnet t.headers accepted)
    (hbounded : HeightsBounded (t.headers.add accepted)) :
    ∃ e : t.Extension, e.accepted = accepted ∧
      (∃ index, lastMaxByWork accepted = some (index, e.candidate)) ∧
      ∃ s', recordHeaders accepted s = .ok accepted s' ∧ Represents s' (t.extend e) := by
  obtain ⟨index, candidate, hmax, hget, hle, -⟩ := lastMaxByWork_spec hne
  let e : t.Extension := ⟨accepted, hgrows, hbounded, candidate, List.mem_of_getElem? hget, hle _⟩
  refine ⟨e, rfl, ⟨index, hmax⟩, ?_⟩
  obtain ⟨s₁, hput, hview⟩ := LawfulHeaderStore.putHeaders_ok hgrows.nodup
    (h.getHeader_eq ▸ hgrows.fresh)
  have hview : view s₁ = (view s).put e.accepted := hview
  rw [recordHeaders_eq hne h.bestHeader_eq hmax hput]
  by_cases hp : shouldPromote t.tip candidate
  · obtain ⟨s₂, hs₂, hview₂⟩ := moveTip_ok h e hview hget
    refine ⟨s₂, ?_, represents_of_promote h e hview hp hview₂⟩
    rw [if_pos hp, bind_ok hs₂]
    rfl
  · rw [if_neg hp]
    exact ⟨s₁, rfl, represents_of_not_promote h e hview (Bool.eq_false_of_not_eq_true hp)⟩

end Hns
