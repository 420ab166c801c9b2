import Hns.Chain.Retarget

/-!
# Chains under transparent digests

Digests under which a header is its own proof of work: they keep the first
octets they are fed, so that the hash of a header with a zero mask is its nonce
and its time, after twenty zeros. It meets every target in use, and headers of
different nonces have different hashes.

On them rests a family of chains from the genesis block, of any length and any
times (`Sample.grows`), whose bits are those of the genesis block as long as
that is what the retarget asks for. With a block every ten minutes it is
(`Sample.grows_of_spaced`).
-/

namespace Hns.Sample

open Except EStateM HeaderStore Ancestry

/-- The digests that keep the first octets. -/
scoped instance digests : Digests where
  blake2b256 data := ⟨List.replicate 20 0 ++ (data ++ List.replicate 12 0).take 12, by simp⟩
  blake2b512 data := ⟨(data ++ List.replicate 64 0).take 64, by simp⟩
  sha3 _ := .zero

theorem shareHash_bytes (header : BlockHeader) :
    header.shareHash.bytes = List.replicate 20 0 ++
      (Octet.toLE 4 header.nonce.toNat ++ Octet.toLE 8 header.time.toNat) := by
  obtain ⟨front, hfront⟩ : ∃ front, front =
      Octet.toLE 4 header.nonce.toNat ++ Octet.toLE 8 header.time.toNat := ⟨_, rfl⟩
  obtain ⟨rest, hrest⟩ : ∃ rest, header.toPrehead = front ++ rest := by
    rw [BlockHeader.toPrehead, hfront]
    simp only [List.append_assoc]
    exact ⟨_, rfl⟩
  have hlen : front.length = 12 := by rw [hfront]; simp
  have htake (l : List UInt8) : (front ++ l).take 12 = front := by
    rw [← hlen, List.take_left]
  simp only [BlockHeader.shareHash, blake2b_256, blake2b_512, Digests.blake2b256,
    Digests.blake2b512, List.flatten_cons, List.flatten_nil, List.append_nil, hrest, ← hfront]
  congr 1
  rw [List.append_assoc, List.take_append_of_le_length (by simp; omega), List.take_take,
    Nat.min_eq_left (by norm_num), List.append_assoc, htake]

/-- The hash of a header with a zero mask: its nonce and its time. -/
theorem hash_bytes {header : BlockHeader} (hmask : header.mask = .zero) :
    header.hash.bytes = List.replicate 20 0 ++
      (Octet.toLE 4 header.nonce.toNat ++ Octet.toLE 8 header.time.toNat) := by
  have hxor (l : List UInt8) : List.zipWith (· ^^^ ·) l (List.replicate l.length 0) = l := by
    induction l with
    | nil => rfl
    | cons b l ih => rw [List.length_cons, List.replicate_succ, List.zipWith_cons_cons, ih,
        UInt8.xor_zero]
  rw [← shareHash_bytes]
  change List.zipWith _ header.shareHash.bytes header.mask.bytes = _
  rw [hmask]
  have := hxor header.shareHash.bytes
  rwa [header.shareHash.length_bytes] at this

theorem hash_value_lt {header : BlockHeader} (hmask : header.mask = .zero) :
    header.hash.value < 256 ^ 12 := by
  rw [Octets.value, hash_bytes hmask, Octet.ofBE_append, Octet.ofBE_replicate_zero, zero_mul,
    zero_add]
  exact (Octet.ofBE_lt _).trans_eq (by simp)

theorem nonce_eq_of_hash_eq {header header' : BlockHeader} (hmask : header.mask = .zero)
    (hmask' : header'.mask = .zero) (h : header.hash = header'.hash) :
    header.nonce = header'.nonce := by
  have hbytes := congrArg Octets.bytes h
  rw [hash_bytes hmask, hash_bytes hmask', List.append_cancel_left_eq] at hbytes
  have hnonce := Octet.toLE_inj (List.append_inj_left hbytes (by simp))
  have := header.nonce.toNat_lt
  have := header'.nonce.toNat_lt
  rw [Nat.mod_eq_of_lt (by omega), Nat.mod_eq_of_lt (by omega)] at hnonce
  exact UInt32.toNat_inj.1 hnonce

/-! ## A family of chains -/

/-- The work of a block of the chains. -/
def blockWork : ℕ := 2 ^ 256 / (0xffff * 2 ^ 200 + 1)

theorem blockWork_pos : 0 < blockWork := by decide +kernel

/-- The block at a height of a chain. There is one chain of even nonces and one of odd ones, for
    every choice of times. -/
def headerAt (odd : Bool) (time : ℕ → ℕ) : ℕ → BlockHeader
  | 0 => .mainnetGenesis
  | height + 1 =>
    { BlockHeader.mainnetGenesis with
      nonce := UInt32.ofNat (2 * (height + 1) - odd.toNat)
      time := UInt64.ofNat (time (height + 1))
      prevBlock := (headerAt odd time height).hash }

/-- Its entry. -/
def entryAt (odd : Bool) (time : ℕ → ℕ) (height : ℕ) : StoredHeader where
  hash := (headerAt odd time height).hash
  header := headerAt odd time height
  height := height
  chainwork := (height + 1) * blockWork

/-- The blocks of a chain at the heights `1, …, n`. -/
def entriesTo (odd : Bool) (time : ℕ → ℕ) (n : ℕ) : List StoredHeader :=
  (List.range n).map fun height => entryAt odd time (height + 1)

/-- The headers of a chain up to a height. -/
def headersTo (odd : Bool) (time : ℕ → ℕ) (n : ℕ) : Headers :=
  ChainTree.genesis.headers.add (entriesTo odd time n)

variable {odd : Bool} {time : ℕ → ℕ}

theorem mask_headerAt (height : ℕ) : (headerAt odd time height).mask = .zero := by
  cases height <;> rfl

theorem bits_headerAt (height : ℕ) : (headerAt odd time height).bits = mainnetPowBits := by
  cases height <;> rfl

theorem entryAt_zero (odd : Bool) (time : ℕ → ℕ) : entryAt odd time 0 = genesisEntry := by
  simp [entryAt, genesisEntry, headerAt, blockWork]

theorem nonce_headerAt {height : ℕ} (h : height < 2 ^ 31) :
    (headerAt odd time height).nonce.toNat = 2 * height - odd.toNat := by
  have := odd.toNat_le
  cases height with
  | zero =>
    rw [Nat.mul_zero, Nat.zero_sub]
    rfl
  | succ height => exact UInt32.toNat_ofNat_of_lt' (by rw [UInt32.size]; omega)

theorem height_eq_of_hash_eq {odd' : Bool} {time' : ℕ → ℕ} {height height' : ℕ}
    (h : height < 2 ^ 31) (h' : height' < 2 ^ 31)
    (heq : (headerAt odd time height).hash = (headerAt odd' time' height').hash) :
    2 * height - odd.toNat = 2 * height' - odd'.toNat := by
  rw [← nonce_headerAt h, ← nonce_headerAt h',
    nonce_eq_of_hash_eq (mask_headerAt height) (mask_headerAt height') heq]

theorem verifyPow_headerAt (height : ℕ) :
    verifyPow (headerAt odd time height).hash (headerAt odd time height).bits = .ok true := by
  have hlt : (headerAt odd time height).hash.value < 256 ^ 12 :=
    hash_value_lt (mask_headerAt height)
  rw [bits_headerAt, verifyPow_eq compactToTarget_mainnetPowBits,
    decide_eq_true (hlt.le.trans (by rw [mainnetLimit]; norm_num))]

theorem entriesTo_succ (n : ℕ) :
    entriesTo odd time (n + 1) = entriesTo odd time n ++ [entryAt odd time (n + 1)] := by
  rw [entriesTo, List.range_succ, List.map_append]
  rfl

theorem headersTo_succ (n : ℕ) :
    headersTo odd time (n + 1) = (headersTo odd time n).add [entryAt odd time (n + 1)] := by
  rw [headersTo, entriesTo_succ, Headers.add_append]
  rfl

/-- The entries of a chain, where they are accepted. -/
theorem headersTo_apply {n : ℕ}
    (hgrows : Grows .mainnet ChainTree.genesis.headers (entriesTo odd time n)) {height : ℕ}
    (h : height ≤ n) :
    headersTo odd time n (headerAt odd time height).hash = some (entryAt odd time height) := by
  cases height with
  | zero =>
    rw [entryAt_zero]
    exact hgrows.sub _ _ (Table.insert_self ..)
  | succ height =>
    have hmem : entryAt odd time (height + 1) ∈ entriesTo odd time n :=
      List.mem_map.2 ⟨height, List.mem_range.2 h, rfl⟩
    exact hgrows.get hmem

theorem headersTo_eq_none {n : ℕ} {hash : Hash}
    (h : ∀ height ≤ n, (headerAt odd time height).hash ≠ hash) :
    headersTo odd time n hash = none := by
  cases hs : headersTo odd time n hash with
  | none => rfl
  | some stored =>
    rcases Table.insertAll_eq_some hs with ⟨entry, hmem, hhash, -⟩ | hs
    · obtain ⟨height, hlt, rfl⟩ := List.mem_map.1 hmem
      exact absurd hhash (h (height + 1) (List.mem_range.1 hlt))
    · rcases Table.insert_eq_some hs with ⟨hhash, -⟩ | ⟨-, hs⟩
      · rw [← entryAt_zero odd time] at hhash
        exact absurd hhash.symm (h 0 (Nat.zero_le n))
      · cases hs

/-- The blocks of a chain are accepted as long as the bits of the genesis block are asked for. -/
theorem grows {n : ℕ} (hn : n < 2 ^ 31)
    (hbits : ∀ height < n, Grows .mainnet ChainTree.genesis.headers (entriesTo odd time height) →
      expectedMainnetBits (headersTo odd time height) (entryAt odd time height) =
        .ok mainnetPowBits) :
    Grows .mainnet ChainTree.genesis.headers (entriesTo odd time n) := by
  induction n with
  | zero => exact .nil _
  | succ n ih =>
    have hgrows := ih (by omega) fun height h => hbits height (by omega)
    have hget := headersTo_apply hgrows (le_refl n)
    rw [entriesTo_succ]
    refine hgrows.append (.cons ?_ ?_ (.nil _))
    · refine accept_eq_ok.2 ⟨entryAt odd time n, blockWork, hget, ?_, verifyPow_headerAt _, ?_, ?_⟩
      · rw [validateDifficultyBits_mainnet]
        exact (hbits n (Nat.lt_succ_self n) hgrows).trans
          (congrArg Except.ok (bits_headerAt (n + 1)).symm)
      · exact (congrArg Chainwork.fromBits (bits_headerAt (n + 1))).trans fromBits_mainnetGenesis
      · simp only [entryAt, StoredHeader.child, StoredHeader.mk.injEq]
        exact ⟨trivial, trivial, (Nat.mod_eq_of_lt (by omega)).symm, by ring⟩
    · -- The hashes below are those of other nonces.
      refine headersTo_eq_none fun height hle heq => ?_
      have := height_eq_of_hash_eq (by omega) (by omega) heq
      have := odd.toNat_le
      omega

/-- The blocks of a chain of one kind of nonces are accepted on those of the other. -/
theorem grows_other {time' : ℕ → ℕ} {m n : ℕ} (hm : m < 2 ^ 31) (hn : n < 2 ^ 31)
    (hgrows : Grows .mainnet ChainTree.genesis.headers (entriesTo false time m))
    (hgrows' : Grows .mainnet ChainTree.genesis.headers (entriesTo true time' n)) :
    Grows .mainnet (headersTo false time m) (entriesTo true time' n) := by
  refine hgrows'.mono hgrows.sub fun stored hs => ?_
  obtain ⟨height, hlt, rfl⟩ := List.mem_map.1 hs
  rw [List.mem_range] at hlt
  refine headersTo_eq_none fun height' hle heq => ?_
  have := height_eq_of_hash_eq (by omega) (by omega) heq
  simp only [Bool.toNat_false, Bool.toNat_true] at this
  omega

theorem height_lt_of_mem {n : ℕ} (hn : n < 2 ^ 31) :
    ∀ stored ∈ entriesTo odd time n, stored.height < 2 ^ 32 - 1 := by
  intro stored hs
  obtain ⟨height, hlt, rfl⟩ := List.mem_map.1 hs
  rw [List.mem_range] at hlt
  simp only [entryAt]
  omega

section Grown

variable {n : ℕ} (hn : n < 2 ^ 31)
  (hgrows : Grows .mainnet ChainTree.genesis.headers (entriesTo odd time n))

include hn in
theorem heightsBounded : HeightsBounded (headersTo odd time n) :=
  ChainTree.genesis.valid.bounded.add (height_lt_of_mem hn)

include hn hgrows

theorem validTree : ValidTree (headersTo odd time n) :=
  ChainTree.genesis.valid.add hgrows (heightsBounded hn)

omit hn in
theorem parentIn_entryAt {height : ℕ} (h : height ≤ n) :
    parentIn (headersTo odd time n) (entryAt odd time (height + 1)) =
      some (entryAt odd time height) := headersTo_apply hgrows h

omit hn in
theorem ancestor_entryAt {height i : ℕ} (h : height + i ≤ n) :
    ancestor (parentIn (headersTo odd time n)) i (entryAt odd time (height + i)) =
      some (entryAt odd time height) := by
  induction i with
  | zero => rfl
  | succ i ih =>
    rw [← Nat.add_assoc, ancestor_succ_of_parent (parentIn_entryAt hgrows (by omega)),
      ih (by omega)]

omit hn in
theorem windowsOf_entryAt {height : ℕ} (h : height + 146 ≤ n) :
    windowsOf (headersTo odd time n) (entryAt odd time (height + 146)) =
      some (⟨entryAt odd time height, entryAt odd time (height + 1), entryAt odd time (height + 2)⟩,
        ⟨entryAt odd time (height + 144), entryAt odd time (height + 145),
          entryAt odd time (height + 146)⟩) := by
  have hday : ancestor (parentIn (headersTo odd time n)) mainnetBlocksPerDay
      (entryAt odd time (height + 146)) = some (entryAt odd time (height + 2)) :=
    ancestor_entryAt hgrows (by omega : height + 2 + 144 ≤ n)
  have hwindow {k : ℕ} (hk : k + 2 ≤ n) :
      windowOf (headersTo odd time n) (entryAt odd time (k + 2)) =
        some ⟨entryAt odd time k, entryAt odd time (k + 1), entryAt odd time (k + 2)⟩ := by
    rw [windowOf, parentIn_entryAt hgrows (by omega), Option.bind_eq_bind, Option.bind_some,
      parentIn_entryAt hgrows (by omega)]
    rfl
  rw [windowsOf, hwindow (by omega), hday, Option.bind_eq_bind, Option.bind_some,
    Option.bind_eq_bind, Option.bind_some, hwindow (by omega)]
  rfl

theorem expectedMainnetBits_entryAt {height : ℕ} (h : height + 146 ≤ n) :
    expectedMainnetBits (headersTo odd time n) (entryAt odd time (height + 146)) =
      retargetBits
        (middleByTime (entryAt odd time height) (entryAt odd time (height + 1))
          (entryAt odd time (height + 2)))
        (middleByTime (entryAt odd time (height + 144)) (entryAt odd time (height + 145))
          (entryAt odd time (height + 146))) := by
  have hheight : 146 ≤ (entryAt odd time (height + 146)).height := Nat.le_add_left 146 height
  obtain ⟨first, last, hwindows, hbits, -⟩ :=
    (validTree hn hgrows).headerTree.windowsOf_eq (headersTo_apply hgrows h) hheight
  rw [windowsOf_entryAt hgrows h, Option.some.injEq, Prod.mk.injEq] at hwindows
  rw [hbits, ← hwindows.1, ← hwindows.2]
  rfl

/-- A chain inserted as one batch on the genesis block. -/
theorem insertHeaders_entriesTo (hpos : 0 < n) :
    ∃ e : ChainTree.genesis.Extension, e.accepted = entriesTo odd time n ∧
      e.candidate = entryAt odd time n ∧
      ∃ s', insertHeaders .mainnet ((entriesTo odd time n).map StoredHeader.header)
          ChainTree.genesis.toStore = .ok (entriesTo odd time n) s' ∧
        Represents s' (ChainTree.genesis.extend e) := by
  have hne : entriesTo odd time n ≠ [] := by
    rw [ne_eq, entriesTo, List.map_eq_nil_iff, List.range_eq_nil]
    exact hpos.ne'
  obtain ⟨e, haccepted, ⟨index, hmax⟩, s', hs', hrep⟩ :=
    recordHeaders_ok (rfl : Represents ChainTree.genesis.toStore _) hne hgrows (heightsBounded hn)
  refine ⟨e, haccepted, ?_, s', ?_, hrep⟩
  · -- The last block has more work than those before it.
    have hmem := e.candidate_mem
    rw [haccepted] at hmem
    obtain ⟨height, hlt, heq⟩ := List.mem_map.1 hmem
    rw [List.mem_range] at hlt
    have hlast : entryAt odd time n ∈ e.accepted := by
      rw [haccepted]
      exact List.mem_map.2 ⟨n - 1, List.mem_range.2 (by omega), by rw [Nat.sub_add_cancel hpos]⟩
    have hle := e.le_candidate hlast
    rw [← heq] at hle ⊢
    have hle := Nat.le_of_mul_le_mul_right hle blockWork_pos
    rw [(by omega : height + 1 = n)]
  · exact (insertHeaders_of_grows hgrows hgrows.unseen_eq_self.symm).trans hs'

/-- A chain is in a store reached from the empty one, by the genesis block and a batch. -/
theorem exists_reachable (hpos : 0 < n) :
    ∃ e : ChainTree.genesis.Extension, e.accepted = entriesTo odd time n ∧
      e.candidate = entryAt odd time n ∧ Reachable (ChainTree.genesis.extend e).toStore := by
  obtain ⟨e, haccepted, hcandidate, s', hs', hrep⟩ := insertHeaders_entriesTo hn hgrows hpos
  have hstep := Step.headers ((entriesTo odd time n).map StoredHeader.header)
    ChainTree.genesis.toStore
  rw [hs', Result.state_ok] at hstep
  refine ⟨e, haccepted, hcandidate, ?_⟩
  rw [← show s' = _ from hrep]
  exact reachable_genesis.step hstep hrep.bounded

omit hn hgrows in
/-- The last block of a chain becomes the tip. -/
theorem tip_extend (hpos : 0 < n) {e : ChainTree.genesis.Extension}
    (h : e.candidate = entryAt odd time n) :
    (ChainTree.genesis.extend e).tip = some (entryAt odd time n) := by
  have hlt : genesisEntry.chainwork < (entryAt odd time n).chainwork := by
    rw [← entryAt_zero odd time]
    exact Nat.mul_lt_mul_of_pos_right (by omega) blockWork_pos
  rw [ChainTree.tip_extend, ChainTree.genesis_tip, h, shouldPromote, decide_eq_true hlt, if_pos rfl]

end Grown

/-! ## A block every ten minutes -/

/-- The times of blocks ten minutes apart, from that of the genesis block on. -/
def spaced (height : ℕ) : ℕ := 1580745078 + 600 * height

theorem time_entryAt_spaced {height : ℕ} (h : height < 2 ^ 31) :
    (entryAt odd spaced height).time = spaced height := by
  cases height with
  | zero => rfl
  | succ height => exact UInt64.toNat_ofNat_of_lt' (by rw [spaced, UInt64.size]; omega)

/-- Blocks ten minutes apart keep the bits of the genesis block. -/
theorem grows_of_spaced {n : ℕ} (hn : n < 2 ^ 31) :
    Grows .mainnet ChainTree.genesis.headers (entriesTo odd spaced n) := by
  refine grows hn fun height hlt hgrows => ?_
  by_cases h : height < 146
  · exact if_pos h
  · obtain ⟨k, rfl⟩ := Nat.exists_eq_add_of_le' (not_lt.1 h)
    have htime {i : ℕ} (hi : i ≤ 146) :
        (entryAt odd spaced (k + i)).time = 1580745078 + 600 * (k + i) :=
      time_entryAt_spaced (by omega)
    have hmiddle {i : ℕ} (hi : i ≤ 144) :
        middleByTime (entryAt odd spaced (k + i)) (entryAt odd spaced (k + (i + 1)))
          (entryAt odd spaced (k + (i + 2))) = entryAt odd spaced (k + (i + 1)) := by
      rw [middleByTime_eq, htime (by omega), htime (by omega), htime (by omega),
        if_pos (by omega), if_pos (by omega)]
    have hwork : (entryAt odd spaced (k + 145)).chainwork - (entryAt odd spaced (k + 1)).chainwork =
        144 * blockWork := by
      simp only [entryAt]
      rw [← Nat.sub_mul]
      congr 1
      omega
    have hle : (entryAt odd spaced (k + 1)).chainwork ≤ (entryAt odd spaced (k + 145)).chainwork :=
      Nat.mul_le_mul_right _ (by omega)
    have hspan : actualTimespan (entryAt odd spaced (k + 1)) (entryAt odd spaced (k + 145)) =
        86400 := by
      rw [actualTimespan, htime (by omega), htime (by omega), mainnetMinActualTimespan,
        mainnetMaxActualTimespan, mainnetTargetSpacing]
      omega
    rw [expectedMainnetBits_entryAt (by omega) hgrows le_rfl]
    have hfirst := hmiddle (i := 0) (by omega)
    have hlast := hmiddle (i := 144) le_rfl
    rw [Nat.add_zero] at hfirst
    rw [hfirst, hlast, retargetBits, if_neg (by simp [entryAt]), if_neg hle.not_gt, hwork, hspan]
    decide +kernel

/-- A store reached from the empty one, whose best chain has a block every ten minutes. -/
theorem exists_store_of_spaced {n : ℕ} (hpos : 0 < n) (hn : n < 2 ^ 31) :
    ∃ m : MemoryHeaderStore, Reachable m ∧ m.headers = headersTo odd spaced n ∧
      m.best = some (entryAt odd spaced n).hash := by
  obtain ⟨e, haccepted, hcandidate, hreach⟩ := exists_reachable hn (grows_of_spaced hn) hpos
  exact ⟨_, hreach, congrArg ChainTree.genesis.headers.add haccepted,
    (ChainTree.tip_eq_some_iff.1 (tip_extend hpos hcandidate)).1⟩

end Hns.Sample
