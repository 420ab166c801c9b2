import Hns.Chain.Sample

/-!
# A batch against single insertions

The total work of the headers of a batch is known before they are inserted: the
work of their bits on that of their parents, in the batch or stored
(`TotalWork`). Inserting the headers one by one stores the same entries as
inserting the batch, and keeps the first header to reach the greatest work as
the tip (`insertEach_spec`); the batch takes the last one.

* `insertHeaders_eq_insertEach_iff`: they leave the same contents exactly when
  no two new headers tie for a total work above that of the tip.
-/

namespace Hns

open Except EStateM HeaderStore

/-! ## The work of the headers of a batch -/

/-- The work of the chain of a header, stored or first in a batch under its hash. -/
inductive TotalWork [Digests] (known : Headers) (batch : List BlockHeader) : Hash → ℕ → Prop
  | known {hash : Hash} {stored : StoredHeader} (h : known hash = some stored) :
      TotalWork known batch hash stored.chainwork
  | new {hash : Hash} {header : BlockHeader} {work parentWork : ℕ} (h : known hash = none)
      (hheader : batch.find? (fun header => header.hash = hash) = some header)
      (hwork : Chainwork.fromBits header.bits = .ok work)
      (hparent : TotalWork known batch header.prevBlock parentWork) :
      TotalWork known batch hash (parentWork + work)

/-- The header of the batch is not stored, and has some total work. -/
def NewWork [Digests] (known : Headers) (batch : List BlockHeader) (header : BlockHeader)
    (work : ℕ) : Prop :=
  header ∈ batch ∧ known header.hash = none ∧ TotalWork known batch header.hash work

section TotalWork

variable [Digests] {known : Headers} {batch : List BlockHeader}

theorem TotalWork.unique {hash : Hash} {work work' : ℕ} (h : TotalWork known batch hash work)
    (h' : TotalWork known batch hash work') : work = work' := by
  induction h generalizing work' with
  | known hknown =>
    cases h' with
    | known hknown' => rw [Option.some.inj (hknown.symm.trans hknown')]
    | new hnone => rw [hknown] at hnone; cases hnone
  | new hnone hheader hwork _ ih =>
    cases h' with
    | known hknown => rw [hknown] at hnone; cases hnone
    | new _ hheader' hwork' hparent' =>
      rw [hheader, Option.some.injEq] at hheader'
      subst hheader'
      rw [hwork, Except.ok.injEq] at hwork'
      rw [ih hparent', hwork']

/-- A new header is the first of the batch under its hash. -/
theorem mem_unseen {seen : List Hash} {header : BlockHeader}
    (h : header ∈ unseen known seen batch) :
    header.hash ∉ seen ∧ known header.hash = none ∧
      batch.find? (fun header' => header'.hash = header.hash) = some header := by
  induction batch generalizing seen with
  | nil => cases h
  | cons first batch ih =>
    rw [unseen] at h
    split_ifs at h with hfirst
    · obtain ⟨hseen, hnone, hfind⟩ := ih h
      rw [List.mem_cons, not_or] at hseen
      refine ⟨hseen.2, hnone, ?_⟩
      rw [List.find?_cons_of_neg (by simpa using Ne.symm hseen.1), hfind]
    · rcases List.mem_cons.1 h with rfl | h
      · rw [not_or, Option.not_isSome_iff_eq_none] at hfirst
        exact ⟨hfirst.1, hfirst.2, List.find?_cons_of_pos (by simp)⟩
      · obtain ⟨hseen, hnone, hfind⟩ := ih h
        rw [List.mem_cons, not_or] at hseen
        refine ⟨hseen.2, hnone, ?_⟩
        rw [List.find?_cons_of_neg (by simpa using Ne.symm hseen.1), hfind]

/-- Every header of the batch that is not stored is new, or has the hash of one that is. -/
theorem exists_mem_unseen {seen : List Hash} {header : BlockHeader} (hmem : header ∈ batch)
    (hseen : header.hash ∉ seen) (hnone : known header.hash = none) :
    ∃ header' ∈ unseen known seen batch, header'.hash = header.hash := by
  induction batch generalizing seen with
  | nil => cases hmem
  | cons first batch ih =>
    rw [unseen]
    by_cases heq : first.hash = header.hash
    · rw [if_neg (by simp [heq, hseen, hnone])]
      exact ⟨first, List.mem_cons_self, heq⟩
    · have hmem : header ∈ batch := by
        rcases List.mem_cons.1 hmem with rfl | hmem
        · exact absurd rfl heq
        · exact hmem
      obtain ⟨header', h', hhash⟩ := @ih (first.hash :: seen) hmem (by simp [Ne.symm heq, hseen])
      split_ifs
      · exact ⟨header', h', hhash⟩
      · exact ⟨header', List.mem_cons_of_mem _ h', hhash⟩

variable {accepted : List StoredHeader} (hgrows : Grows .mainnet known accepted)
  (hmap : accepted.map StoredHeader.header = unseen known [] batch)

include hmap

/-- Where an accepted header stands in the batch. -/
theorem find?_of_mem_accepted {policy : DifficultyPolicy} (hgrows : Grows policy known accepted)
    {stored : StoredHeader} (h : stored ∈ accepted) :
    known stored.hash = none ∧
      batch.find? (fun header => header.hash = stored.hash) = some stored.header := by
  have hmem : stored.header ∈ unseen known [] batch := hmap ▸ List.mem_map_of_mem h
  rw [hash_of_accept (hgrows.accept h)]
  exact (mem_unseen hmem).2

include hgrows

/-- The chainwork of the accepted headers is the total work of those of the batch. -/
theorem totalWork_of_mem_accepted {stored : StoredHeader} (h : stored ∈ accepted) :
    TotalWork known batch stored.hash stored.chainwork := by
  -- The entries known so far carry the total work of their hashes; it holds of the next one.
  suffices ∀ {rest : List StoredHeader} {known' : Headers}, Grows .mainnet known' rest →
      (∀ stored ∈ rest, stored ∈ accepted) →
      (∀ hash stored, known' hash = some stored → TotalWork known batch hash stored.chainwork) →
      ∀ stored ∈ rest, TotalWork known batch stored.hash stored.chainwork from
    this hgrows (fun _ => id) (fun _ _ => .known) stored h
  intro rest known' hrest
  induction hrest with
  | nil => simp
  | @cons known' head rest hacc _ _ ih =>
    intro hsub hknown stored hmem
    have hhead : TotalWork known batch head.hash head.chainwork := by
      obtain ⟨parent, work, hp, -, -, hwork, heq⟩ := accept_eq_ok.1 hacc
      obtain ⟨hnone, hfind⟩ := find?_of_mem_accepted hmap hgrows (hsub head List.mem_cons_self)
      have htotal := TotalWork.new hnone hfind hwork (hknown _ _ hp)
      rwa [show head.chainwork = parent.chainwork + work by rw [heq]; rfl]
    rcases List.mem_cons.1 hmem with rfl | hmem
    · exact hhead
    · refine ih (fun s hs => hsub s (List.mem_cons_of_mem _ hs)) (fun hash s hs => ?_) stored hmem
      rcases Table.insert_eq_some hs with ⟨rfl, rfl⟩ | ⟨-, hs⟩
      · exact hhead
      · exact hknown hash s hs

/-- The new headers of the batch that have a total work are the accepted ones. -/
theorem newWork_iff {header : BlockHeader} {work : ℕ} :
    NewWork known batch header work ↔
      header ∈ batch ∧ ∃ stored ∈ accepted, stored.hash = header.hash ∧ stored.chainwork = work := by
  constructor
  · rintro ⟨hmem, hnone, hwork⟩
    obtain ⟨header', h', hhash⟩ := exists_mem_unseen hmem List.not_mem_nil hnone
    rw [← hmap] at h'
    obtain ⟨stored, hs, rfl⟩ := List.mem_map.1 h'
    rw [← hash_of_accept (hgrows.accept hs)] at hhash
    refine ⟨hmem, stored, hs, hhash, ?_⟩
    exact (totalWork_of_mem_accepted hgrows hmap hs).unique (hhash ▸ hwork)
  · rintro ⟨hmem, stored, hs, hhash, rfl⟩
    rw [NewWork, ← hhash]
    exact ⟨hmem, (find?_of_mem_accepted hmap hgrows hs).1,
      totalWork_of_mem_accepted hgrows hmap hs⟩

/-- An accepted header is a new one of the batch, with its chainwork. -/
theorem newWork_of_mem_accepted {stored : StoredHeader} (h : stored ∈ accepted) :
    NewWork known batch stored.header stored.chainwork := by
  have hfind := (find?_of_mem_accepted hmap hgrows h).2
  refine (newWork_iff hgrows hmap).2 ⟨List.mem_of_find?_eq_some hfind, stored, h, ?_, rfl⟩
  exact hash_of_accept (hgrows.accept h)

end TotalWork

/-! ## Inserting one by one -/

section OneByOne

variable {S : Type} [HeaderStore S] [Digests]

/-- One round of inserting headers one by one: a stored header is skipped. -/
def insertUnlessStored (policy : DifficultyPolicy) (header : BlockHeader) :
    EStateM ChainError S Unit := do
  if (getHeader (← get) header.hash).isSome then return
  discard (insertHeader policy header)

/-- The headers of a batch inserted one by one, in order. -/
def insertEach (policy : DifficultyPolicy) (headers : List BlockHeader) :
    EStateM ChainError S Unit := headers.forM (insertUnlessStored policy)

theorem insertUnlessStored_of_stored {policy : DifficultyPolicy} {header : BlockHeader} {s : S}
    (h : (getHeader s header.hash).isSome) : insertUnlessStored policy header s = .ok () s := by
  rw [insertUnlessStored, bind_ok (rfl : (get : EStateM ChainError S S) s = .ok s s), if_pos h]
  rfl

theorem insertUnlessStored_of_ok {policy : DifficultyPolicy} {header : BlockHeader} {s s' : S}
    {stored : StoredHeader} (h : getHeader s header.hash = none)
    (hs : insertHeader policy header s = .ok stored s') :
    insertUnlessStored policy header s = .ok () s' := by
  rw [insertUnlessStored, bind_ok (rfl : (get : EStateM ChainError S S) s = .ok s s),
    if_neg (by simp [h])]
  exact bind_ok hs

/-- The tip after some headers one by one: each replaces it that has more work. -/
def firstBest (tip : Option StoredHeader) (headers : List StoredHeader) : Option StoredHeader :=
  headers.foldl (fun tip stored => if shouldPromote tip stored then some stored else tip) tip

theorem unseen_congr {known known' : Headers} {seen seen' : List Hash} (headers : List BlockHeader)
    (h : ∀ hash, hash ∈ seen ∨ (known hash).isSome ↔ hash ∈ seen' ∨ (known' hash).isSome) :
    unseen known seen headers = unseen known' seen' headers := by
  induction headers generalizing seen seen' with
  | nil => rfl
  | cons header headers ih =>
    rw [unseen, unseen]
    simp only [h header.hash]
    rw [ih fun hash => ?_]
    rw [List.mem_cons, List.mem_cons, or_assoc, or_assoc, h hash]

/-- Headers accepted one after the other are inserted one by one: the tree has them all, and its
    tip is the first of those that ever had more work than the ones before. -/
theorem insertEach_spec [LawfulHeaderStore S] {s : S} {t : ChainTree} (h : Represents s t)
    {headers : List BlockHeader} {l : List StoredHeader}
    (hmap : l.map StoredHeader.header = unseen t.headers [] headers)
    (hgrows : Grows .mainnet t.headers l) (hbounded : HeightsBounded (t.headers.add l)) :
    ∃ s' t', insertEach .mainnet headers s = .ok () s' ∧ Represents s' t' ∧
      t'.headers = t.headers.add l ∧ t'.tip = firstBest t.tip l := by
  induction headers generalizing s t l with
  | nil =>
    rw [unseen, List.map_eq_nil_iff] at hmap
    subst hmap
    exact ⟨s, t, rfl, h, rfl, rfl⟩
  | cons header headers ih =>
    rw [unseen] at hmap
    split_ifs at hmap with hseen
    · have hstored := hseen.resolve_left List.not_mem_nil
      have hcongr : unseen t.headers [header.hash] headers = unseen t.headers [] headers :=
        unseen_congr headers fun hash => by
          constructor
          · rintro (hmem | hsome)
            · rw [List.mem_singleton.1 hmem]
              exact .inr hstored
            · exact .inr hsome
          · exact Or.imp_left fun hmem => absurd hmem List.not_mem_nil
      rw [hcongr] at hmap
      rw [insertEach, forM_cons_ok (insertUnlessStored_of_stored (h.getHeader_eq ▸ hstored))]
      exact ih h hmap hgrows hbounded
    · cases hgrows with
      | nil => simp at hmap
      | @cons _ stored l haccept hfresh hrest =>
        rw [List.map_cons, List.cons.injEq] at hmap
        obtain ⟨hheader, hmap⟩ := hmap
        have hsingle : HeightsBounded (t.headers.add [stored]) := hbounded.of_sub hrest.sub
        obtain ⟨s₁, hs₁, hrep⟩ := recordHeader_ok h haccept hfresh hsingle
        have hinsert : insertHeader .mainnet header s = .ok stored s₁ := by
          rw [insertHeader_eq, h.getHeader_eq, ← hheader, haccept]
          exact hs₁
        have hhash : header.hash = stored.hash := hheader ▸ (hash_of_accept haccept).symm
        have hcongr : unseen t.headers [header.hash] headers =
            unseen (t.headers.add [stored]) [] headers :=
          unseen_congr headers fun hash => by
            by_cases heq : hash = stored.hash
            · subst heq
              simp [hhash, Headers.add, Table.insertAll]
            · simp [hhash, heq, Headers.add, Table.insertAll, Table.insert_of_ne _ _ heq]
        rw [hcongr] at hmap
        obtain ⟨s', t', hs', hrep', hheaders, htip⟩ := ih hrep hmap hrest hbounded
        refine ⟨s', t', ?_, hrep', hheaders, ?_⟩
        · rw [insertEach, forM_cons_ok (insertUnlessStored_of_ok (by
            rw [h.getHeader_eq, hhash, hfresh]) hinsert)]
          exact hs'
        · rw [htip, ChainTree.tip_extend]
          rfl

omit [Digests] in
/-- The tip after headers one by one: the one there was, or the first header with the most
    work. -/
theorem firstBest_spec (tip : StoredHeader) (l : List StoredHeader) :
    (firstBest (some tip) l = some tip ∧ ∀ stored ∈ l, stored.chainwork ≤ tip.chainwork) ∨
      ∃ index first, firstBest (some tip) l = some first ∧ l[index]? = some first ∧
        tip.chainwork < first.chainwork ∧
        (∀ stored ∈ l, stored.chainwork ≤ first.chainwork) ∧
        ∀ stored ∈ l.take index, stored.chainwork < first.chainwork := by
  induction l using List.reverseRecOn with
  | nil => exact .inl ⟨rfl, by simp⟩
  | append_singleton l last ih =>
    have hfold : firstBest (some tip) (l ++ [last]) =
        if shouldPromote (firstBest (some tip) l) last then some last
        else firstBest (some tip) l := by
      rw [firstBest, List.foldl_append]
      rfl
    have hall {work : ℕ} (hl : ∀ stored ∈ l, stored.chainwork ≤ work)
        (hlast : last.chainwork ≤ work) : ∀ stored ∈ l ++ [last], stored.chainwork ≤ work := by
      intro stored hmem
      rcases List.mem_append.1 hmem with hmem | hmem
      · exact hl stored hmem
      · rwa [List.mem_singleton.1 hmem]
    rw [hfold]
    rcases ih with ⟨hbest, hle⟩ | ⟨index, first, hbest, hget, htip, hle, hlt⟩
    · rw [hbest, shouldPromote]
      split_ifs with h
      · rw [decide_eq_true_eq] at h
        refine .inr ⟨l.length, last, rfl, by simp, h, hall (fun s hs => ?_) le_rfl, ?_⟩
        · exact (hle s hs).trans h.le
        · intro stored hmem
          rw [List.take_left] at hmem
          exact (hle stored hmem).trans_lt h
      · rw [decide_eq_true_eq, not_lt] at h
        exact .inl ⟨rfl, hall hle h⟩
    · have hindex : index < l.length := (List.getElem?_eq_some_iff.1 hget).1
      rw [hbest, shouldPromote]
      split_ifs with h
      · rw [decide_eq_true_eq] at h
        refine .inr ⟨l.length, last, rfl, by simp, htip.trans h, hall (fun s hs => ?_) le_rfl, ?_⟩
        · exact (hle s hs).trans h.le
        · intro stored hmem
          rw [List.take_left] at hmem
          exact (hle stored hmem).trans_lt h
      · rw [decide_eq_true_eq, not_lt] at h
        refine .inr ⟨index, first, rfl, ?_, htip, hall hle h, ?_⟩
        · rw [List.getElem?_append_left hindex, hget]
        · rwa [List.take_append_of_le_length hindex.le]

omit [Digests] in
/-- The first and the last of the headers with the most work are the same when it is reached
    once. -/
theorem first_eq_last_iff {l : List StoredHeader} (hnodup : (l.map StoredHeader.hash).Nodup)
    {i j : ℕ} {first last : StoredHeader} (hi : l[i]? = some first) (hj : l[j]? = some last)
    (hfirst : ∀ stored ∈ l, stored.chainwork ≤ first.chainwork)
    (hlast : ∀ stored ∈ l, stored.chainwork ≤ last.chainwork)
    (hbefore : ∀ stored ∈ l.take i, stored.chainwork < first.chainwork)
    (hafter : ∀ stored ∈ l.drop (j + 1), stored.chainwork < last.chainwork) :
    first = last ↔ ∀ a ∈ l, ∀ b ∈ l, a.chainwork = first.chainwork →
      b.chainwork = first.chainwork → a.hash = b.hash := by
  have hfmem := List.mem_of_getElem? hi
  have hlmem := List.mem_of_getElem? hj
  have hinj := List.inj_on_of_nodup_map hnodup
  constructor
  · rintro rfl
    -- An element with the most work stands neither before the first nor after the last.
    have hij : i = j := by
      have hlt := (List.getElem?_eq_some_iff.1 hi).1
      exact (List.getElem?_inj hlt (List.Nodup.of_map _ hnodup)).1 (hi.trans hj.symm)
    have hunique : ∀ a ∈ l, a.chainwork = first.chainwork → a = first := by
      intro a ha hwork
      obtain ⟨k, hk⟩ := List.mem_iff_getElem?.1 ha
      rcases lt_trichotomy k i with hlt | rfl | hgt
      · have hmem : a ∈ l.take i := by
          refine List.mem_of_getElem? (i := k) ?_
          rw [List.getElem?_take_of_lt hlt, hk]
        exact absurd hwork (hbefore a hmem).ne
      · rw [hk, Option.some.injEq] at hi
        exact hi
      · have hmem : a ∈ l.drop (j + 1) := by
          refine List.mem_of_getElem? (i := k - (j + 1)) ?_
          rw [List.getElem?_drop, Nat.add_sub_cancel' (by omega), hk]
        exact absurd hwork (hafter a hmem).ne
    intro a ha b hb hwa hwb
    rw [hunique a ha hwa, hunique b hb hwb]
  · intro h
    refine hinj hfmem hlmem (h first hfmem last hlmem rfl ?_)
    exact le_antisymm (hfirst last hlmem) (hlast first hfmem)

/-! ## Ties -/

/-- Two new headers of the batch, of different hashes, have the greatest total work, above that
    of the tip. -/
def TiedForBest (s : S) (batch : List BlockHeader) : Prop :=
  ∃ a b work, NewWork (getHeader s) batch a work ∧ NewWork (getHeader s) batch b work ∧
    a.hash ≠ b.hash ∧ (∀ tip, bestHeader s = .ok (some tip) → tip.chainwork < work) ∧
    ∀ c work', NewWork (getHeader s) batch c work' → work' ≤ work

/-- The ties of a batch, among its accepted headers. -/
theorem tiedForBest_iff {s : S} {t : ChainTree} (ht : Represents s t) (e : t.Extension)
    {headers : List BlockHeader}
    (hmap : e.accepted.map StoredHeader.header = unseen t.headers [] headers)
    {tip first : StoredHeader} (htip : t.tip = some tip) (hfirst : first ∈ e.accepted)
    (hle : ∀ stored ∈ e.accepted, stored.chainwork ≤ first.chainwork)
    (hlt : tip.chainwork < first.chainwork) :
    TiedForBest s headers ↔ ∃ a ∈ e.accepted, ∃ b ∈ e.accepted,
      a.chainwork = first.chainwork ∧ b.chainwork = first.chainwork ∧ a.hash ≠ b.hash := by
  rw [TiedForBest, ht.getHeader_eq]
  constructor
  · rintro ⟨a, b, work, ha, hb, hne, -, hmax⟩
    have hwork := hmax _ _ (newWork_of_mem_accepted e.grows hmap hfirst)
    obtain ⟨-, a', ha', hahash, rfl⟩ := (newWork_iff e.grows hmap).1 ha
    obtain ⟨-, b', hb', hbhash, hbwork⟩ := (newWork_iff e.grows hmap).1 hb
    have heq := le_antisymm (hle a' ha') hwork
    exact ⟨a', ha', b', hb', heq, hbwork.trans heq, by rwa [hahash, hbhash]⟩
  · rintro ⟨a, ha, b, hb, hawork, hbwork, hne⟩
    have ha' := newWork_of_mem_accepted e.grows hmap ha
    have hb' := newWork_of_mem_accepted e.grows hmap hb
    refine ⟨a.header, b.header, first.chainwork, hawork ▸ ha', hbwork ▸ hb', ?_, ?_, ?_⟩
    · rwa [← hash_of_accept (e.grows.accept ha), ← hash_of_accept (e.grows.accept hb)]
    · intro tip' htip'
      rw [ht.bestHeader_eq, htip] at htip'
      cases htip'
      exact hlt
    · intro c work' hc
      obtain ⟨-, c', hc', -, rfl⟩ := (newWork_iff e.grows hmap).1 hc
      exact hle c' hc'

/-- A batch that is accepted leaves the contents that its headers leave when they are inserted
    one by one, the stored ones skipped, exactly when no two of its new headers tie for the
    most work. -/
theorem insertHeaders_eq_insertEach_iff [LawfulHeaderStore S] {s s' : S} (hs : Reachable s)
    {headers : List BlockHeader} {accepted : List StoredHeader}
    (h : insertHeaders .mainnet headers s = .ok accepted s')
    (hbounded : HeightsBounded (getHeader s')) :
    (∃ s'', insertEach .mainnet headers s = .ok () s'' ∧ view s'' = view s') ↔
      ¬TiedForBest s headers := by
  obtain ⟨t, ht⟩ := hs.represents
  have hstate : (insertHeaders .mainnet headers s).state = s' := by rw [h]; rfl
  rcases insertHeaders_spec ht headers (hstate ▸ hbounded) with
    ⟨e, herror⟩ | ⟨hnil, hok⟩ | ⟨e, hmap, ⟨index, hmax⟩, s₁, hok, hrep⟩
  · rw [h] at herror
    cases herror
  · rw [h] at hok
    cases hok
    have hgrows : Grows .mainnet t.headers [] := .nil _
    have hmap : [].map StoredHeader.header = unseen t.headers [] headers := hnil.symm
    obtain ⟨s'', t'', hs'', hrep'', hheaders, htip⟩ :=
      insertEach_spec ht hmap hgrows t.valid.bounded
    refine iff_of_true ⟨s'', hs'', ?_⟩ ?_
    · rw [hrep'', ht]
      exact (ChainTree.toStore_eq_iff hheaders).2 htip
    · rintro ⟨a, _, _, ha, -⟩
      rw [ht.getHeader_eq, newWork_iff hgrows hmap] at ha
      obtain ⟨-, _, hmem, -⟩ := ha
      cases hmem
  · rw [h] at hok
    cases hok
    obtain ⟨s'', t'', hs'', hrep'', hheaders, htip⟩ := insertEach_spec ht hmap e.grows e.bounded
    have hsame : (∃ s'', insertEach .mainnet headers s = .ok () s'' ∧ view s'' = view s') ↔
        firstBest t.tip e.accepted = (t.extend e).tip := by
      rw [hs'', ← htip, ← ChainTree.toStore_eq_iff hheaders, ← hrep'', ← hrep]
      constructor
      · rintro ⟨_, ⟨⟩, hview⟩
        exact hview
      · exact fun hview => ⟨s'', rfl, hview⟩
    rw [hsame, ChainTree.tip_extend]
    obtain ⟨tip, ht'⟩ := e.exists_tip
    have hcandidate : ∀ stored ∈ e.accepted, stored.chainwork ≤ e.candidate.chainwork :=
      fun _ => e.le_candidate
    obtain ⟨index', greatest, hmax', hget, -, hafter⟩ :=
      lastMaxByWork_spec (List.ne_nil_of_mem e.candidate_mem)
    rw [hmax, Option.some.injEq, Prod.mk.injEq] at hmax'
    obtain ⟨rfl, rfl⟩ := hmax'
    rw [ht', shouldPromote]
    rcases firstBest_spec tip e.accepted with
      ⟨hbest, hle⟩ | ⟨i, first, hbest, hi, hlt, hle, hbefore⟩
    · -- No new header has more work than the tip.
      rw [hbest, if_neg (by simpa using hle _ e.candidate_mem)]
      refine iff_of_true rfl ?_
      rintro ⟨a, _, work, ha, -, -, htipwork, -⟩
      rw [ht.getHeader_eq, newWork_iff e.grows hmap] at ha
      obtain ⟨-, stored, hmem, -, rfl⟩ := ha
      exact absurd (htipwork tip (ht' ▸ ht.bestHeader_eq)) (hle stored hmem).not_gt
    · have hlt' := hlt.trans_le (hcandidate first (List.mem_of_getElem? hi))
      rw [hbest, if_pos (by simpa using hlt'), Option.some.injEq,
        first_eq_last_iff e.grows.nodup hi hget hle hcandidate hbefore hafter,
        tiedForBest_iff ht e hmap ht' (List.mem_of_getElem? hi) hle hlt]
      push Not
      rfl

end OneByOne

namespace Sample

/-- Blocks in a row, each with more work than the one before, are inserted alike. -/
theorem insertHeaders_eq_insertEach_of_spaced :
    ∃ accepted s', insertHeaders .mainnet
          ((entriesTo false spaced 200).map StoredHeader.header) ChainTree.genesis.toStore =
        .ok accepted s' ∧
      ∃ s'', insertEach .mainnet ((entriesTo false spaced 200).map StoredHeader.header)
          ChainTree.genesis.toStore = .ok () s'' ∧ view s'' = view s' := by
  have hn : 200 < 2 ^ 31 := by norm_num
  have hgrows : Grows .mainnet ChainTree.genesis.headers (entriesTo false spaced 200) :=
    grows_of_spaced hn
  obtain ⟨e, -, -, s', hs', hrep⟩ := insertHeaders_entriesTo hn hgrows (by norm_num)
  refine ⟨_, s', hs',
    (insertHeaders_eq_insertEach_iff reachable_genesis hs' hrep.bounded).2 ?_⟩
  rintro ⟨a, b, work, ha, hb, hne, -⟩
  obtain ⟨-, a', ha', hahash, hawork⟩ := (newWork_iff hgrows hgrows.unseen_eq_self.symm).1 ha
  obtain ⟨-, b', hb', hbhash, hbwork⟩ := (newWork_iff hgrows hgrows.unseen_eq_self.symm).1 hb
  refine hne ?_
  rw [← hahash, ← hbhash]
  obtain ⟨i, -, rfl⟩ := List.mem_map.1 ha'
  obtain ⟨j, -, rfl⟩ := List.mem_map.1 hb'
  have hij := Nat.eq_of_mul_eq_mul_right blockWork_pos (hawork.trans hbwork.symm)
  rw [Nat.succ_injective (Nat.succ_injective hij)]

/-- Two children of the genesis block. -/
def fork : List BlockHeader := [headerAt false spaced 1, headerAt true spaced 1]

/-- A fork inserted in one batch makes its last header the tip, inserted one by one its first. -/
theorem insertHeaders_fork :
    Reachable ChainTree.genesis.toStore ∧
      ∃ accepted s' s'', insertHeaders .mainnet fork ChainTree.genesis.toStore = .ok accepted s' ∧
        insertEach .mainnet fork ChainTree.genesis.toStore = .ok () s'' ∧
        s'.best = some (headerAt true spaced 1).hash ∧
        s''.best = some (headerAt false spaced 1).hash ∧ s'.best ≠ s''.best := by
  obtain ⟨accepted, hbatch⟩ := Result.eq_ok_of_isOk
    (r := insertHeaders .mainnet fork ChainTree.genesis.toStore) (by decide +kernel)
  obtain ⟨u, heach⟩ := Result.eq_ok_of_isOk
    (r := insertEach .mainnet fork ChainTree.genesis.toStore) (by decide +kernel)
  exact ⟨reachable_genesis, accepted, _, _, hbatch, heach, by decide +kernel⟩

end Sample

end Hns
