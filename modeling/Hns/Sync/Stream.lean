import Hns.Sync.Frame

/-!
# The stream of frames

What arrives from a peer of `hns-p2p` is cut into reads that know nothing of
frames. The decoder keeps what it has not yet made packets of (`feed`), and
`receivePacket` reads until there is a packet.

The decoder refuses a read when what it has kept and the read are together
longer than the longest frame, although the read may complete a frame and begin
the next one. Frames are put together again exactly when no read is refused for
that (`Fits`) and every packet is read as it has been written
(`feedAll_eq_ok_iff`). What the decoder keeps is the unfinished part of one
frame, whatever has been decoded before (`Ahead`). The packets that are received
from a connection are those that the decoder makes (`receivePackets_of_feedAll`).
-/

namespace Hns

structure FrameDecoder where
  buffer : List UInt8
  network : Network
  deriving DecidableEq

/-- A frame is not empty, and it is all there. -/
theorem decodeFrame_used {network : Network} {data : List UInt8} {packet : Packet} {used : ℕ}
    (h : decodeFrame network data = .ok (some (packet, used))) : 0 < used ∧ used ≤ data.length := by
  rw [decodeFrame] at h
  split_ifs at h with hshort
  · cases h
  obtain ⟨header, -, h⟩ := Except.bind_eq_ok.1 h
  obtain ⟨-, h⟩ := Except.throw_unless.1 h
  obtain ⟨-, h⟩ := Except.throw_unless.1 h
  dsimp only at h
  split_ifs at h with hlen
  · cases h
  obtain ⟨packet', -, h⟩ := Except.bind_eq_ok.1 h
  obtain ⟨-, rfl⟩ := Prod.mk.inj (Option.some.inj (Except.ok.inj h))
  exact ⟨Nat.lt_add_right _ (by decide), not_lt.1 hlen⟩

namespace FrameDecoder

def new (network : Network) : FrameDecoder := ⟨[], network⟩

/-- The loop of `feed`: the packets of the frames in front, and what is left. -/
def decodeFrames (network : Network) (data : List UInt8) :
    Except P2pError (List Packet × List UInt8) :=
  match _h : decodeFrame network data with
  | .error e => .error e
  | .ok none => .ok ([], data)
  | .ok (some (packet, used)) =>
    if data.length = used then .ok ([packet], [])
    else do
      let (packets, rest) ← decodeFrames network (data.drop used)
      return (packet :: packets, rest)
termination_by data.length
decreasing_by
  have := decodeFrame_used _h
  rw [List.length_drop]
  omega

def feed (data : List UInt8) : EStateM P2pError FrameDecoder (List Packet) := fun decoder =>
  if maxMessage + frameHeaderSize < decoder.buffer.length + data.length then
    .error .messageTooLarge decoder
  else
    let decoder := { decoder with buffer := decoder.buffer ++ data }
    match decodeFrames decoder.network decoder.buffer with
    | .error e => .error e decoder
    | .ok (packets, rest) => .ok packets { decoder with buffer := rest }

/-- The reads, one after the other. -/
def feedAll : List (List UInt8) → EStateM P2pError FrameDecoder (List Packet)
  | [] => return []
  | data :: reads => do
    let packets ← feed data
    let more ← feedAll reads
    return packets ++ more

end FrameDecoder

/-! ## What is unfinished -/

/-- Of frames of these lengths, what has arrived of the one that is not complete after `count`
    octets. -/
def unfinished : List ℕ → ℕ → ℕ
  | [], _ => 0
  | length :: lengths, count =>
    if count < length then count else unfinished lengths (count - length)

theorem unfinished_append (lengths lengths' : List ℕ) (count : ℕ) :
    unfinished (lengths ++ lengths') (lengths.sum + count) = unfinished lengths' count := by
  induction lengths with
  | nil => simp
  | cons length lengths ih =>
    rw [List.cons_append, unfinished, List.sum_cons, if_neg (by omega), ← ih]
    congr 1
    omega

/-- No read is longer than what there is room for beside the unfinished frame. -/
def FitsFrom (lengths : List ℕ) (count : ℕ) (reads : List (List UInt8)) : Prop :=
  ∀ before read after, reads = before ++ read :: after →
    unfinished lengths (count + before.flatten.length) + read.length ≤ maxMessage + frameHeaderSize

theorem fitsFrom_cons {lengths : List ℕ} {count : ℕ} {read : List UInt8} {reads : List (List UInt8)} :
    FitsFrom lengths count (read :: reads) ↔
      unfinished lengths count + read.length ≤ maxMessage + frameHeaderSize ∧
        FitsFrom lengths (count + read.length) reads := by
  constructor
  · intro h
    refine ⟨by simpa using h [] read reads rfl, fun before read' after hreads => ?_⟩
    have := h (read :: before) read' after (by rw [hreads]; rfl)
    rwa [List.flatten_cons, List.length_append, ← Nat.add_assoc] at this
  · rintro ⟨hread, hreads⟩ before read' after heq
    rcases before with _ | ⟨read'', before⟩
    · obtain ⟨rfl, rfl⟩ := List.cons.inj heq
      simpa using hread
    · obtain ⟨rfl, rfl⟩ := List.cons.inj heq
      rw [List.flatten_cons, List.length_append, ← Nat.add_assoc]
      exact hreads before read' after rfl

/-- The frames that are whole do not matter. -/
theorem fitsFrom_append (lengths lengths' : List ℕ) (count : ℕ) (reads : List (List UInt8)) :
    FitsFrom (lengths ++ lengths') (lengths.sum + count) reads ↔ FitsFrom lengths' count reads := by
  simp only [FitsFrom, Nat.add_assoc, unfinished_append]

/-- As `FitsFrom`, from the start of the first frame. -/
def Fits (lengths : List ℕ) (reads : List (List UInt8)) : Prop :=
  ∀ before read after, reads = before ++ read :: after →
    unfinished lengths before.flatten.length + read.length ≤ maxMessage + frameHeaderSize

theorem fitsFrom_zero {lengths : List ℕ} {reads : List (List UInt8)} :
    FitsFrom lengths 0 reads ↔ Fits lengths reads := by
  simp only [FitsFrom, Fits, Nat.zero_add]

theorem unfinished_le (lengths : List ℕ) (count : ℕ) : unfinished lengths count ≤ count := by
  induction lengths generalizing count with
  | nil => exact Nat.zero_le _
  | cons length lengths ih =>
    rw [unfinished]
    split_ifs
    · exact le_rfl
    · exact (ih _).trans (Nat.sub_le _ _)

/-- A stream that is no longer than the longest frame fits however it is cut. -/
theorem fits_of_length_le (lengths : List ℕ) {reads : List (List UInt8)}
    (h : reads.flatten.length ≤ maxMessage + frameHeaderSize) : Fits lengths reads := by
  rintro before read after rfl
  have := unfinished_le lengths before.flatten.length
  rw [List.flatten_append, List.flatten_cons, List.length_append, List.length_append] at h
  omega

/-! ## What is ahead -/

/-- Each packet stands in its frame. -/
abbrev Framed (network : Network) : List Packet → List (List UInt8) → Prop :=
  List.Forall₂ fun packet frame => encodeFrame network packet = .ok frame

/-- The frames of the packets are ahead, and `part` of the first one has arrived, but not all. -/
structure Ahead (network : Network) (packets : List Packet) (frames : List (List UInt8))
    (part rest : List UInt8) : Prop where
  framed : Framed network packets frames
  text : part ++ rest = frames.flatten
  short : ∀ frame ∈ frames.head?, part.length < frame.length

section

variable {network : Network} {packets : List Packet} {frames : List (List UInt8)}
  {text part rest : List UInt8}

/-- At the end of a frame nothing of the next one has arrived. -/
theorem Framed.ahead (h : Framed network packets frames) (htext : rest = frames.flatten) :
    Ahead network packets frames [] rest := by
  refine ⟨h, htext, ?_⟩
  cases h with
  | nil => simp
  | cons hframe _ =>
    intro frame hmem
    obtain rfl := Option.some.inj hmem
    exact (by decide : 0 < frameHeaderSize).trans_le (length_of_encodeFrame hframe).1

namespace FrameDecoder

theorem decodeFrames_of_none (h : decodeFrame network text = .ok none) :
    decodeFrames network text = .ok ([], text) := by
  rw [decodeFrames]
  split <;> simp_all

theorem decodeFrames_of_some {packet : Packet} {used : ℕ}
    (h : decodeFrame network text = .ok (some (packet, used))) :
    decodeFrames network text =
      if text.length = used then .ok ([packet], [])
      else do
        let (packets, rest) ← decodeFrames network (text.drop used)
        return (packet :: packets, rest) := by
  rw [decodeFrames]
  split <;> simp_all

/-- The loop decodes the frames that are complete, and leaves a part of the next one. -/
theorem decodeFrames_eq (hframed : Framed network packets frames)
    (htext : text ++ rest = frames.flatten) :
    ∃ done todo before after part, packets = done ++ todo ∧ frames = before ++ after ∧
      text = before.flatten ++ part ∧ Ahead network todo after part rest ∧
      decodeFrames network text = .ok (done.map Packet.received, part) := by
  induction hframed generalizing text with
  | nil =>
    obtain ⟨rfl, rfl⟩ := List.append_eq_nil_iff.1 htext
    exact ⟨[], [], [], [], [], rfl, rfl, rfl, Framed.ahead .nil rfl, decodeFrames_of_none rfl⟩
  | @cons packet frame packets frames hframe hframed ih =>
    rw [List.flatten_cons] at htext
    have htext' : text <+: frame ++ frames.flatten := ⟨rest, htext⟩
    have hframe' : frame <+: frame ++ frames.flatten := List.prefix_append _ _
    by_cases hlen : text.length < frame.length
    · -- The first frame is not complete.
      refine ⟨[], packet :: packets, [], frame :: frames, text, rfl, rfl, rfl,
        ⟨.cons hframe hframed, htext, by simpa using hlen⟩, decodeFrames_of_none ?_⟩
      obtain ⟨more, rfl⟩ := List.prefix_of_prefix_length_le htext' hframe' hlen.le
      exact (isFrame_of_encodeFrame hframe).part rfl (by rintro rfl; simp at hlen)
    · obtain ⟨text, rfl⟩ := List.prefix_of_prefix_length_le hframe' htext' (not_lt.1 hlen)
      rw [List.append_assoc, List.append_cancel_left_eq] at htext
      rw [decodeFrames_of_some (decodeFrame_append hframe text)]
      split_ifs with hall
      · -- The frame is all there is.
        obtain rfl : text = [] := by simpa using hall
        exact ⟨[packet], packets, [frame], frames, [], rfl, rfl, by simp, Framed.ahead hframed htext, rfl⟩
      · obtain ⟨done, todo, before, after, part, rfl, rfl, rfl, hahead, hdecode⟩ := ih htext
        refine ⟨packet :: done, todo, frame :: before, after, part, rfl, rfl, by simp, hahead, ?_⟩
        rw [List.drop_left, hdecode]
        rfl

/-- A read that is not refused makes packets of the frames that it completes. -/
theorem feed_of_ahead {read : List UInt8} (h : Ahead network packets frames part (read ++ rest)) :
    ∃ done todo before after part', packets = done ++ todo ∧ frames = before ++ after ∧
      part.length + read.length = (before.map List.length).sum + part'.length ∧
      Ahead network todo after part' rest ∧
      feed read ⟨part, network⟩ =
        if maxMessage + frameHeaderSize < part.length + read.length then
          .error .messageTooLarge ⟨part, network⟩
        else .ok (done.map Packet.received) ⟨part', network⟩ := by
  have htext : (part ++ read) ++ rest = frames.flatten := by rw [List.append_assoc, h.text]
  obtain ⟨done, todo, before, after, part', hpackets, hframes, htext, hahead, hdecode⟩ :=
    decodeFrames_eq h.framed htext
  refine ⟨done, todo, before, after, part', hpackets, hframes, ?_, hahead, ?_⟩
  · rw [← List.length_append, htext, List.length_append, List.length_flatten]
  · simp only [feed, hdecode]

/-- Of the frame ahead, what has arrived is unfinished. -/
theorem unfinished_of_ahead (h : Ahead network packets frames part rest) :
    unfinished (frames.map List.length) part.length = part.length := by
  obtain ⟨-, htext, hshort⟩ := h
  cases frames with
  | nil =>
    obtain ⟨rfl, -⟩ := List.append_eq_nil_iff.1 htext
    rfl
  | cons frame frames => exact if_pos (hshort frame rfl)

/-- At the end of all frames nothing is kept. -/
theorem eq_nil_of_ahead (h : Ahead network packets frames part []) : packets = [] ∧ part = [] := by
  obtain ⟨hframed, htext, hshort⟩ := h
  cases hframed with
  | nil => exact ⟨rfl, by simpa using htext⟩
  | @cons packet frame packets frames hframe hframed =>
    -- A part of the first frame would be longer than the frame.
    have hlt := hshort frame rfl
    rw [List.append_nil] at htext
    rw [htext, List.flatten_cons, List.length_append] at hlt
    exact absurd hlt (by omega)

/-- The run over the reads: either one of them is refused, or all packets have been decoded. -/
theorem feedAll_of_ahead {reads : List (List UInt8)} {out : List Packet} {decoder : FrameDecoder}
    (h : Ahead network packets frames part reads.flatten) :
    feedAll reads ⟨part, network⟩ = .ok out decoder ↔
      FitsFrom (frames.map List.length) part.length reads ∧ out = packets.map Packet.received ∧
        decoder = new network := by
  induction reads generalizing packets frames part out decoder with
  | nil =>
    obtain ⟨rfl, rfl⟩ := eq_nil_of_ahead h
    have hfits : FitsFrom (frames.map List.length) 0 [] := by
      intro before read after heq
      simp at heq
    change EStateM.Result.ok [] (new network) = .ok out decoder ↔ _
    simp [hfits, eq_comm]
  | cons read reads ih =>
    obtain ⟨done, todo, before, after, part', rfl, rfl, hlen, hahead, hfeed⟩ := feed_of_ahead h
    rw [fitsFrom_cons, unfinished_of_ahead h, hlen, List.map_append, fitsFrom_append, ← hlen,
      feedAll, EStateM.run_bind_eq_ok]
    constructor
    · rintro ⟨ps, decoder', hread, hrest⟩
      rw [hfeed] at hread
      split_ifs at hread with hlong
      cases hread
      obtain ⟨more, decoder'', hmore, hout⟩ := EStateM.run_bind_eq_ok.1 hrest
      obtain ⟨hfits, rfl, rfl⟩ := (ih hahead).1 hmore
      cases hout
      exact ⟨⟨not_lt.1 hlong, hfits⟩, by simp, rfl⟩
    · rintro ⟨⟨hshort, hfits⟩, rfl, rfl⟩
      rw [if_neg (not_lt.2 hshort)] at hfeed
      refine ⟨_, _, hfeed, EStateM.run_bind_eq_ok.2 ⟨_, _, (ih hahead).2 ⟨hfits, rfl, rfl⟩, ?_⟩⟩
      rw [List.map_append]
      rfl

/-- The reads of the frames of some packets give back these packets, and leave nothing behind,
    exactly when every packet is read as it has been written and every read fits beside what is
    unfinished. -/
theorem feedAll_eq_ok_iff {reads : List (List UInt8)} (hframed : Framed network packets frames)
    (hreads : reads.flatten = frames.flatten) :
    feedAll reads (new network) = .ok packets (new network) ↔
      (∀ packet ∈ packets, packet.Plain) ∧ Fits (frames.map List.length) reads := by
  have hplain : packets = packets.map Packet.received ↔ ∀ packet ∈ packets, packet.Plain := by
    have h : packets.map Packet.received = packets.map id ↔
        ∀ packet ∈ packets, packet.received = packet := List.map_inj_left
    rw [List.map_id] at h
    rw [eq_comm, h]
    simp only [Packet.received_eq_self]
  rw [new, feedAll_of_ahead (Framed.ahead hframed hreads), List.length_nil, hplain, fitsFrom_zero]
  exact ⟨fun h => ⟨h.2.1, h.1⟩, fun h => ⟨h.2, h.1, rfl⟩⟩

end FrameDecoder

end

/-! ## Connections -/

/-- A connection, with what its transport is about to read. -/
structure PeerConnection where
  reads : List (List UInt8)
  decoder : FrameDecoder
  pending : List Packet

namespace PeerConnection

open FrameDecoder

/-- The loop of `receive_packet`; a read of nothing is the end. -/
def receiveLoop (decoder : FrameDecoder) :
    List (List UInt8) → EStateM.Result P2pError PeerConnection Packet
  | [] => .error .connectionClosed ⟨[], decoder, []⟩
  | data :: reads =>
    if data = [] then .error .connectionClosed ⟨reads, decoder, []⟩
    else
      match feed data decoder with
      | .error e decoder => .error e ⟨reads, decoder, []⟩
      | .ok (packet :: pending) decoder => .ok packet ⟨reads, decoder, pending⟩
      | .ok [] decoder => receiveLoop decoder reads

def receivePacket : EStateM P2pError PeerConnection Packet := fun connection =>
  match connection.pending with
  | packet :: pending => .ok packet { connection with pending := pending }
  | [] => receiveLoop connection.decoder connection.reads

/-- Some packets, received one after the other. -/
def receivePackets : ℕ → EStateM P2pError PeerConnection (List Packet)
  | 0 => return []
  | count + 1 => do
    let packet ← receivePacket
    let packets ← receivePackets count
    return packet :: packets

/-- The packets that are pending come first. -/
theorem receivePackets_of_pending {reads : List (List UInt8)} {decoder : FrameDecoder}
    {packets : List Packet} {count : ℕ} {connection : PeerConnection} (pending : List Packet)
    (h : receivePackets count ⟨reads, decoder, []⟩ = .ok packets connection) :
    receivePackets (pending.length + count) ⟨reads, decoder, pending⟩ =
      .ok (pending ++ packets) connection := by
  induction pending with
  | nil => simpa using h
  | cons packet pending ih =>
    rw [List.length_cons, Nat.add_right_comm, receivePackets]
    exact (EStateM.bind_ok rfl).trans (EStateM.bind_ok ih)

/-- Without a packet the loop goes on to the next read. -/
theorem receiveLoop_of_feed_nil {data : List UInt8} {reads : List (List UInt8)}
    {decoder decoder' : FrameDecoder} (hne : data ≠ []) (h : feed data decoder = .ok [] decoder') :
    receiveLoop decoder (data :: reads) = receiveLoop decoder' reads := by
  rw [receiveLoop, if_neg hne, h]

theorem receiveLoop_of_feed_cons {data : List UInt8} {reads : List (List UInt8)}
    {decoder decoder' : FrameDecoder} {packet : Packet} {pending : List Packet} (hne : data ≠ [])
    (h : feed data decoder = .ok (packet :: pending) decoder') :
    receiveLoop decoder (data :: reads) = .ok packet ⟨reads, decoder', pending⟩ := by
  rw [receiveLoop, if_neg hne, h]

/-- The packets that are received are those that the decoder makes of the reads. -/
theorem receivePackets_of_feedAll {reads : List (List UInt8)} {decoder decoder' : FrameDecoder}
    {packets : List Packet} (hne : ∀ data ∈ reads, data ≠ [])
    (h : feedAll reads decoder = .ok packets decoder') :
    ∃ connection, receivePackets packets.length ⟨reads, decoder, []⟩ = .ok packets connection := by
  induction reads generalizing decoder packets with
  | nil =>
    obtain ⟨rfl, -⟩ := EStateM.Result.ok.inj h
    exact ⟨_, rfl⟩
  | cons data reads ih =>
    rw [List.forall_mem_cons] at hne
    obtain ⟨done, decoder₁, hfeed, h⟩ := EStateM.run_bind_eq_ok.1 h
    obtain ⟨more, decoder₂, hmore, h⟩ := EStateM.run_bind_eq_ok.1 h
    obtain ⟨rfl, rfl⟩ := EStateM.Result.ok.inj h
    obtain ⟨connection, hconnection⟩ := ih hne.2 hmore
    cases done with
    | nil =>
      cases more with
      | nil => exact ⟨_, rfl⟩
      | cons packet more =>
        obtain ⟨first, connection₁, hfirst, hrest⟩ := EStateM.run_bind_eq_ok.1 hconnection
        have hskip : receivePacket ⟨data :: reads, decoder, []⟩ = .ok first connection₁ :=
          (receiveLoop_of_feed_nil hne.1 hfeed).trans hfirst
        exact ⟨connection, EStateM.run_bind_eq_ok.2 ⟨first, connection₁, hskip, hrest⟩⟩
    | cons packet pending =>
      refine ⟨connection, ?_⟩
      rw [List.cons_append, List.length_cons, List.length_append, receivePackets]
      exact (EStateM.bind_ok (receiveLoop_of_feed_cons hne.1 hfeed)).trans
        (EStateM.bind_ok (receivePackets_of_pending pending hconnection))

end PeerConnection

/-! ## A tail and a head in one read -/

namespace StreamSample

open FrameDecoder

def network : Network := ⟨1533997779⟩

def verack : List UInt8 := FrameHeader.encode ⟨network.magic, 1, 0⟩

theorem encodeFrame_verack : encodeFrame network .verack = .ok verack :=
  encodeFrame_eq_ok.2 ⟨[], rfl, Nat.zero_le _, (List.append_nil _).symm⟩

/-- Two frames, the first of which ends in the read where the second begins. -/
theorem feedAll_verack :
    feedAll [verack.take 5, verack.drop 5 ++ verack.take 2, verack.drop 2] (new network) =
      .ok [.verack, .verack] (new network) := by
  have hframed : Framed network [.verack, .verack] [verack, verack] :=
    .cons encodeFrame_verack (.cons encodeFrame_verack .nil)
  refine (feedAll_eq_ok_iff hframed (by decide +kernel)).2 ⟨?_, fits_of_length_le _ (by decide +kernel)⟩
  intro packet hpacket
  rw [List.mem_pair, or_self] at hpacket
  rw [hpacket]
  trivial

def zeros (n : ℕ) : List UInt8 := List.replicate n 0

theorem length_zeros (n : ℕ) : (zeros n).length = n := List.length_replicate

theorem zeros_append (m n : ℕ) : zeros m ++ zeros n = zeros (m + n) := List.replicate_append_replicate

theorem flatten_zeros (m n : ℕ) : (List.replicate m (zeros n)).flatten = zeros (m * n) :=
  List.flatten_replicate_replicate

/-- A proof whose payload is as long as a payload may be. -/
def longest : Packet := .proof ⟨.zero, .zero, zeros 7999936⟩

def longestHeader : List UInt8 := FrameHeader.encode ⟨network.magic, 27, 8000000⟩

def frames : List (List UInt8) := [longestHeader ++ zeros 8000000, verack]

/-- The last of the reads has the last 8000 octets of the proof, and all of what follows it. -/
def reads : List (List UInt8) :=
  longestHeader :: List.replicate 999 (zeros 8000) ++ [zeros 8000 ++ verack]

theorem framed : Framed network [longest, .verack] frames := by
  have hpayload : longest.encodePayload = .ok (zeros 8000000) := by
    change Except.ok (zeros 32 ++ zeros 32 ++ zeros 7999936) = _
    rw [zeros_append, zeros_append]
  have hlength := length_zeros 8000000
  refine .cons (encodeFrame_eq_ok.2 ⟨_, hpayload, ?_, ?_⟩) (.cons ?_ .nil)
  · rw [hlength]
    decide
  · rw [hlength]
    rfl
  · exact encodeFrame_verack

/-- The reads are the frames, each of a size that a read has, and they are not put together. -/
theorem feedAll_ne : reads.flatten = frames.flatten ∧
    (∀ read ∈ reads, 1 ≤ read.length ∧ read.length ≤ 8192) ∧
    ∀ decoder, feedAll reads (new network) ≠ .ok [longest, .verack] decoder := by
  have hreads : reads.flatten = frames.flatten := by
    rw [reads, frames, List.cons_append, List.flatten_cons, List.flatten_append, flatten_zeros,
      List.flatten_singleton, List.flatten_cons, List.flatten_singleton,
      ← List.append_assoc (zeros _), zeros_append, List.append_assoc]
  refine ⟨hreads, ?_, ?_⟩
  · intro read hread
    rw [reads, List.mem_append, List.mem_cons, List.mem_replicate, List.mem_singleton] at hread
    rcases hread with (rfl | ⟨-, rfl⟩) | rfl
    · decide +kernel
    · rw [length_zeros]
      decide
    · rw [List.length_append, length_zeros]
      decide +kernel
  · intro decoder h
    have hfits := ((feedAll_of_ahead (Framed.ahead framed hreads)).1 h).1
    have hlast := hfits _ _ [] rfl
    have hlengths : frames.map List.length = [8000009, 9] := by
      rw [frames, List.map_cons, List.map_singleton, List.length_append, length_zeros]
      rfl
    have hheader : longestHeader.length = 9 := rfl
    have hverack : verack.length = 9 := rfl
    rw [hlengths, List.flatten_cons, flatten_zeros, List.length_append, List.length_append,
      length_zeros, length_zeros, hheader, hverack] at hlast
    -- Before the last read 7992009 octets of the proof are kept, and 8009 arrive.
    exact absurd hlast (by decide)

end StreamSample

end Hns
