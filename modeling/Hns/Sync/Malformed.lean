import Hns.Sync.Stream

/-!
# Frames before a malformed one

Some frames, and then octets that are none. The malformed frame is known for
what it is once its header has arrived, if the magic number or the length is
wrong, and once its payload has arrived otherwise (`visibleAt`). The loop of
`feed` that comes to it is left with the error, and the packets it has decoded so
far are lost (`decodeFrames_of_malformed`).

* `handedOut_eq_iff`: the packets of all frames are handed out before the first
  error exactly when a read ends between the last frame and the octet that shows
  the malformed one, and no read up to there is too long.
-/

namespace Hns

/-- How many octets of a malformed frame show that it is one. -/
def visibleAt (network : Network) (data : List UInt8) : ℕ :=
  match FrameHeader.parse data with
  | .error _ => frameHeaderSize
  | .ok header =>
    if header.magic ≠ network.magic ∨ maxMessage < header.payloadLen.toNat then frameHeaderSize
    else frameHeaderSize + header.payloadLen.toNat

section

variable {network : Network} {bad : List UInt8} {e : P2pError}

theorem visibleAt_pos (network : Network) (data : List UInt8) : 0 < visibleAt network data := by
  rw [visibleAt]
  split
  · decide
  · split_ifs
    · decide
    · exact Nat.add_pos_left (by decide) _

theorem visibleAt_header (network : Network) (header : FrameHeader) (tail : List UInt8) :
    visibleAt network (header.encode ++ tail) =
      if header.magic ≠ network.magic ∨ maxMessage < header.payloadLen.toNat then frameHeaderSize
      else frameHeaderSize + header.payloadLen.toNat := by
  rw [visibleAt, FrameHeader.parse_encode]

/-- Of what is malformed, a part is waited on, or shows the error. -/
theorem decodeFrame_of_malformed (hbad : decodeFrame network bad = .error e) {part more : List UInt8}
    (hpart : part ++ more = bad) :
    decodeFrame network part =
      if part.length < visibleAt network bad then .ok none else .error e := by
  have hlong : frameHeaderSize ≤ bad.length := by
    by_contra hshort
    rw [decodeFrame, if_pos (not_le.1 hshort)] at hbad
    cases hbad
  obtain ⟨header, tail, rfl⟩ := FrameHeader.exists_eq_encode hlong
  rw [visibleAt_header]
  by_cases hshort : part.length < frameHeaderSize
  · rw [decodeFrame, if_pos hshort]
    split_ifs <;> first | rfl | omega
  · -- The header is there.
    have hheader : header.encode <+: part := by
      refine List.prefix_of_prefix_length_le (List.prefix_append _ tail) ⟨more, hpart⟩ ?_
      rw [header.length_encode]
      exact not_lt.1 hshort
    obtain ⟨tail', rfl⟩ := hheader
    rw [List.append_assoc, List.append_cancel_left_eq] at hpart
    rw [decodeFrame_header] at hbad ⊢
    rw [List.length_append, header.length_encode]
    by_cases hmagic : header.magic ≠ network.magic
    · rw [if_pos hmagic] at hbad ⊢
      rw [if_pos (Or.inl hmagic), if_neg (by omega), hbad]
    rw [if_neg hmagic] at hbad ⊢
    by_cases hlarge : maxMessage < header.payloadLen.toNat
    · rw [if_pos hlarge] at hbad ⊢
      rw [if_pos (Or.inr hlarge), if_neg (by omega), hbad]
    rw [if_neg hlarge] at hbad ⊢
    rw [if_neg (not_or.2 ⟨hmagic, hlarge⟩)]
    by_cases hwait : tail'.length < header.payloadLen.toNat
    · rw [if_pos hwait, if_pos (by omega)]
    · -- The payload is there too, and is the one that does not decode.
      have htake : tail.take header.payloadLen.toNat = tail'.take header.payloadLen.toNat := by
        rw [← hpart, List.take_append_of_le_length (not_lt.1 hwait)]
      have hwait' : ¬tail.length < header.payloadLen.toNat := by
        rw [← hpart, List.length_append]
        omega
      rw [if_neg hwait'] at hbad
      rw [if_neg hwait, if_neg (by omega), ← htake, hbad]

end

/-! ## The decoder -/

/-- Each packet stands in its frame, as it is read. -/
abbrev Frames (network : Network) : List Packet → List (List UInt8) → Prop :=
  List.Forall₂ (IsFrame network)

namespace FrameDecoder

/-- The packets that are handed out before the first error. -/
def handedOut : List (List UInt8) → FrameDecoder → List Packet
  | [], _ => []
  | data :: reads, decoder =>
    match feed data decoder with
    | .error _ _ => []
    | .ok packets decoder => packets ++ handedOut reads decoder

/-- The frames are ahead, and a malformed one behind them; `part` of the first of these has arrived,
    but not all, or not enough to show that it is malformed. -/
structure MalformedAhead (network : Network) (packets : List Packet) (frames : List (List UInt8))
    (bad part rest : List UInt8) : Prop where
  isFrame : Frames network packets frames
  text : part ++ rest = frames.flatten ++ bad
  short : ∀ frame ∈ frames.head?, part.length < frame.length
  hidden : frames = [] → part.length < visibleAt network bad

section

variable {network : Network} {packets : List Packet} {frames : List (List UInt8)}
  {bad text part rest : List UInt8} {e : P2pError}

theorem decodeFrames_of_error (h : decodeFrame network text = .error e) :
    decodeFrames network text = .error e := by
  rw [decodeFrames]
  split <;> simp_all

/-- The loop decodes the frames that are complete; if the malformed one shows, it fails. -/
theorem decodeFrames_of_malformed (hbad : decodeFrame network bad = .error e)
    (hframes : Frames network packets frames) (htext : text ++ rest = frames.flatten ++ bad) :
    if text.length < frames.flatten.length + visibleAt network bad then
      ∃ done todo before after part, packets = done ++ todo ∧ frames = before ++ after ∧
        text = before.flatten ++ part ∧ MalformedAhead network todo after bad part rest ∧
        decodeFrames network text = .ok (done, part)
    else decodeFrames network text = .error e := by
  induction hframes generalizing text with
  | nil =>
    rw [List.flatten_nil, List.nil_append] at htext
    have hdecode := decodeFrame_of_malformed hbad htext
    rw [List.flatten_nil, List.length_nil, zero_add]
    split_ifs with hhidden
    · rw [if_pos hhidden] at hdecode
      exact ⟨[], [], [], [], text, rfl, rfl, rfl, ⟨.nil, htext, by simp, fun _ => hhidden⟩,
        decodeFrames_of_none hdecode⟩
    · rw [if_neg hhidden] at hdecode
      exact decodeFrames_of_error hdecode
  | @cons packet frame packets frames hframe hframes ih =>
    rw [List.flatten_cons, List.append_assoc] at htext
    have htext' : text <+: frame ++ (frames.flatten ++ bad) := ⟨rest, htext⟩
    have hframe' : frame <+: frame ++ (frames.flatten ++ bad) := List.prefix_append _ _
    have hvisible := visibleAt_pos network bad
    by_cases hlen : text.length < frame.length
    · -- The first frame is not complete.
      rw [List.flatten_cons, List.length_append, if_pos (by omega)]
      refine ⟨[], packet :: packets, [], frame :: frames, text, rfl, rfl, rfl,
        ⟨.cons hframe hframes, ?_, by simpa using hlen, fun h => by cases h⟩,
        decodeFrames_of_none ?_⟩
      · rw [htext, List.flatten_cons, List.append_assoc]
      · obtain ⟨more, rfl⟩ := List.prefix_of_prefix_length_le htext' hframe' hlen.le
        exact hframe.part rfl (by rintro rfl; simp at hlen)
    · obtain ⟨text, rfl⟩ := List.prefix_of_prefix_length_le hframe' htext' (not_lt.1 hlen)
      rw [List.append_assoc, List.append_cancel_left_eq] at htext
      rw [decodeFrames_of_some (hframe.append text), List.drop_left, List.flatten_cons,
        List.length_append, List.length_append]
      have ih := ih htext
      by_cases hall : text = []
      · -- The frame is all there is.
        subst hall
        rw [if_pos (by simp only [List.length_nil]; omega), if_pos (by simp)]
        refine ⟨[packet], packets, [frame], frames, [], rfl, rfl, by simp,
          ⟨hframes, htext, ?_, fun _ => hvisible⟩, rfl⟩
        cases hframes with
        | nil => simp
        | cons hnext _ =>
          intro next hmem
          obtain rfl := Option.some.inj hmem
          exact hnext.length_pos
      · have hpos := List.length_pos_of_ne_nil hall
        rw [if_neg (by omega : ¬frame.length + text.length = frame.length)]
        by_cases hhidden : text.length < frames.flatten.length + visibleAt network bad
        · rw [if_pos hhidden] at ih
          obtain ⟨done, todo, before, after, part, rfl, rfl, rfl, hahead, hdecode⟩ := ih
          rw [if_pos (by omega)]
          refine ⟨packet :: done, todo, frame :: before, after, part, rfl, rfl, by simp, hahead, ?_⟩
          rw [hdecode]
          rfl
        · rw [if_neg hhidden] at ih
          rw [if_neg (by omega), ih]
          rfl

/-- A read is refused, or shows the malformed frame, or makes packets of the frames that it
    completes. -/
theorem feed_of_malformed (hbad : decodeFrame network bad = .error e) {read : List UInt8}
    (h : MalformedAhead network packets frames bad part (read ++ rest)) :
    if maxMessage + frameHeaderSize < part.length + read.length then
      feed read ⟨part, network⟩ = .error .messageTooLarge ⟨part, network⟩
    else if part.length + read.length < frames.flatten.length + visibleAt network bad then
      ∃ done todo before after part', packets = done ++ todo ∧ frames = before ++ after ∧
        part.length + read.length = before.flatten.length + part'.length ∧
        MalformedAhead network todo after bad part' rest ∧
        feed read ⟨part, network⟩ = .ok done ⟨part', network⟩
    else feed read ⟨part, network⟩ = .error e ⟨part ++ read, network⟩ := by
  have htext : (part ++ read) ++ rest = frames.flatten ++ bad := by
    rw [List.append_assoc, h.text]
  have hdecode := decodeFrames_of_malformed hbad h.isFrame htext
  rw [List.length_append] at hdecode
  split_ifs with hlong hhidden
  · rw [feed, if_pos hlong]
  · rw [if_pos hhidden] at hdecode
    obtain ⟨done, todo, before, after, part', rfl, rfl, htext, hahead, hdecode⟩ := hdecode
    refine ⟨done, todo, before, after, part', rfl, rfl, ?_, hahead, ?_⟩
    · rw [← List.length_append, htext, List.length_append]
    · rw [feed, if_neg hlong]
      simp only [hdecode]
  · rw [if_neg hhidden] at hdecode
    rw [feed, if_neg hlong]
    simp only [hdecode]

/-- The reads end, at some read, behind the last frame and before the malformed one shows, and none
    of the reads up to there is too long. -/
def Separated (network : Network) (frames : List (List UInt8)) (bad : List UInt8) (count : ℕ)
    (reads : List (List UInt8)) : Prop :=
  ∃ before after, reads = before ++ after ∧
    frames.flatten.length ≤ count + before.flatten.length ∧
    count + before.flatten.length < frames.flatten.length + visibleAt network bad ∧
    FitsFrom (frames.map List.length) count before

theorem MalformedAhead.separated_nil (h : MalformedAhead network packets [] bad part rest)
    (reads : List (List UInt8)) : Separated network [] bad part.length reads := by
  refine ⟨[], reads, rfl, Nat.zero_le _, ?_, ?_⟩
  · simpa using h.hidden rfl
  · intro before read after heq
    simp at heq

/-- Of the first frame that is ahead, not all has arrived. -/
theorem MalformedAhead.lt_length (h : MalformedAhead network packets frames bad part rest)
    (hne : frames ≠ []) : part.length < frames.flatten.length := by
  cases frames with
  | nil => exact absurd rfl hne
  | cons frame frames =>
    have hlt := h.short frame rfl
    rw [List.flatten_cons, List.length_append]
    omega

theorem MalformedAhead.unfinished_eq (h : MalformedAhead network packets frames bad part rest)
    (hne : frames ≠ []) : unfinished (frames.map List.length) part.length = part.length := by
  cases frames with
  | nil => exact absurd rfl hne
  | cons frame frames => exact if_pos (h.short frame rfl)

/-- A read on which nothing is handed out, when packets are still ahead. -/
theorem MalformedAhead.separated_iff_of_error
    (h : MalformedAhead network packets frames bad part rest) {read : List UInt8}
    {reads : List (List UInt8)}
    (herror : maxMessage + frameHeaderSize < part.length + read.length ∨
      frames.flatten.length + visibleAt network bad ≤ part.length + read.length) :
    [] = packets ↔ Separated network frames bad part.length (read :: reads) := by
  have hframes := h.isFrame
  by_cases hne : frames = []
  · subst hne
    cases hframes
    exact iff_of_true rfl (h.separated_nil _)
  · refine iff_of_false ?_ ?_
    · rintro rfl
      cases hframes
      exact hne rfl
    · rintro ⟨before, after, hreads, hge, hlt, hfits⟩
      have hpart := h.lt_length hne
      cases before with
      | nil =>
        rw [List.flatten_nil, List.length_nil] at hge
        omega
      | cons read' before =>
        obtain ⟨rfl, rfl⟩ := List.cons.inj hreads
        rw [fitsFrom_cons, h.unfinished_eq hne] at hfits
        rw [List.flatten_cons, List.length_append] at hlt
        omega

/-- A read on which some frames are decoded. -/
theorem MalformedAhead.separated_cons {before after : List (List UInt8)}
    {packets' : List Packet} {part' rest' : List UInt8}
    (h : MalformedAhead network packets (before ++ after) bad part rest) {read : List UInt8}
    {reads : List (List UInt8)} (hfit : part.length + read.length ≤ maxMessage + frameHeaderSize)
    (hlength : part.length + read.length = before.flatten.length + part'.length)
    (hahead : MalformedAhead network packets' after bad part' rest') :
    Separated network after bad part'.length reads ↔
      Separated network (before ++ after) bad part.length (read :: reads) := by
  have hsum : before.flatten.length = (before.map List.length).sum := List.length_flatten
  have hflatten : (before ++ after).flatten.length = before.flatten.length + after.flatten.length := by
    rw [List.flatten_append, List.length_append]
  constructor
  · rintro ⟨front, back, rfl, hge, hlt, hfits⟩
    refine ⟨read :: front, back, rfl, ?_, ?_, ?_⟩
    · rw [hflatten, List.flatten_cons, List.length_append]
      omega
    · rw [hflatten, List.flatten_cons, List.length_append]
      omega
    · rw [fitsFrom_cons, hlength, hsum, List.map_append, fitsFrom_append]
      refine ⟨?_, hfits⟩
      have := unfinished_le (before.map List.length ++ after.map List.length) part.length
      omega
  · rintro ⟨front, back, hreads, hge, hlt, hfits⟩
    cases front with
    | nil =>
      -- Then there was no frame ahead.
      rw [List.flatten_nil, List.length_nil, add_zero] at hge
      have hnil : before ++ after = [] := by
        by_contra hne
        exact absurd (h.lt_length hne) (not_lt.2 hge)
      obtain ⟨rfl, rfl⟩ := List.append_eq_nil_iff.1 hnil
      exact hahead.separated_nil reads
    | cons read' front =>
      obtain ⟨rfl, rfl⟩ := List.cons.inj hreads
      rw [fitsFrom_cons, hlength, hsum, List.map_append, fitsFrom_append] at hfits
      rw [hflatten, List.flatten_cons, List.length_append] at hge hlt
      exact ⟨front, back, rfl, by omega, by omega, hfits.2⟩

/-- From any state of the decoder before the malformed frame shows. -/
theorem handedOut_of_malformed (hbad : decodeFrame network bad = .error e)
    {reads : List (List UInt8)}
    (h : MalformedAhead network packets frames bad part reads.flatten) :
    handedOut reads ⟨part, network⟩ = packets ↔
      Separated network frames bad part.length reads := by
  induction reads generalizing packets frames part with
  | nil =>
    -- All of it has arrived, and the malformed frame has not shown.
    exfalso
    obtain ⟨hframes, htext, hshort, hhidden⟩ := h
    rw [List.flatten_nil, List.append_nil] at htext
    cases hframes with
    | nil =>
      have hdecode := decodeFrame_of_malformed hbad (List.append_nil bad)
      rw [List.flatten_nil, List.nil_append] at htext
      rw [htext] at hhidden
      rw [if_pos (hhidden rfl), hbad] at hdecode
      cases hdecode
    | cons _ _ =>
      have hlt := hshort _ rfl
      rw [htext, List.flatten_cons, List.length_append, List.length_append] at hlt
      omega
  | cons read reads ih =>
    have hfeed := feed_of_malformed hbad h
    rw [handedOut]
    split_ifs at hfeed with hlong hhidden
    · rw [hfeed]
      exact h.separated_iff_of_error (.inl hlong)
    · obtain ⟨done, todo, before, after, part', rfl, rfl, hlength, hahead, hfeed⟩ := hfeed
      rw [hfeed]
      dsimp only
      rw [List.append_cancel_left_eq, ih hahead]
      exact h.separated_cons (not_lt.1 hlong) hlength hahead
    · rw [hfeed]
      exact h.separated_iff_of_error (.inr (not_lt.1 hhidden))

end

/-- The packets of all frames are handed out before the first error exactly when some read ends
    behind the last frame, before the malformed one shows, and no read up to there is too long. -/
theorem handedOut_eq_iff {network : Network} {packets : List Packet} {frames : List (List UInt8)}
    {bad : List UInt8} {e : P2pError} {reads : List (List UInt8)}
    (hframes : Frames network packets frames) (hbad : decodeFrame network bad = .error e)
    (hreads : reads.flatten = frames.flatten ++ bad) :
    handedOut reads (new network) = packets ↔ Separated network frames bad 0 reads := by
  refine handedOut_of_malformed hbad ⟨hframes, hreads, ?_, fun _ => visibleAt_pos network bad⟩
  cases hframes with
  | nil => simp
  | cons hframe _ =>
    intro frame hmem
    obtain rfl := Option.some.inj hmem
    exact hframe.length_pos

end FrameDecoder

/-! ## One frame and a malformed one -/

namespace StreamSample

open FrameDecoder

/-- A header with another magic number. -/
def wrongMagic : List UInt8 := zeros 9

theorem decodeFrame_wrongMagic : decodeFrame network wrongMagic = .error .invalidMagic := by
  decide +kernel

theorem frames_verack : Frames network [.verack] [verack] :=
  .cons (isFrame_of_encodeFrame encodeFrame_verack) .nil

/-- In a read of its own, the malformed frame comes after the packet. -/
theorem handedOut_verack : handedOut [verack, wrongMagic] (new network) = [.verack] := by
  refine (handedOut_eq_iff frames_verack decodeFrame_wrongMagic rfl).2
    ⟨[verack], [wrongMagic], rfl, le_rfl, by decide +kernel, ?_⟩
  exact fitsFrom_zero.2 (fits_of_length_le _ (by decide +kernel))

/-- In one read with it, the packet is lost. -/
theorem handedOut_ne : IsFrame network .verack verack ∧
    decodeFrame network wrongMagic = .error .invalidMagic ∧
    [verack ++ wrongMagic].flatten = [verack].flatten ++ wrongMagic ∧
    handedOut [verack ++ wrongMagic] (new network) = [] := by
  have h : MalformedAhead network [.verack] [verack] wrongMagic []
      ((verack ++ wrongMagic) ++ []) := ⟨frames_verack, rfl, by decide, fun h => by cases h⟩
  have hfeed := feed_of_malformed decodeFrame_wrongMagic h
  rw [if_neg (by decide +kernel), if_neg (by decide +kernel)] at hfeed
  refine ⟨isFrame_of_encodeFrame encodeFrame_verack, decodeFrame_wrongMagic, rfl, ?_⟩
  rw [handedOut, new, hfeed]

end StreamSample

end Hns
