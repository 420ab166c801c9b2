import Hns.Sync.Codec

/-!
# Frames

A packet travels in a frame of `hns-p2p`: a header of nine octets with the
magic number of the network, the type of the packet and the length of the
payload, and the payload behind it. A frame is read from the front of what has
arrived (`decodeFrame`), once all of it is there:

* a whole frame is read, whatever follows it (`IsFrame.append`), and of a part of a
  frame nothing is read yet (`IsFrame.part`);
* a frame that has been written is read as what the other side makes of the packet
  (`isFrame_of_encodeFrame`), which within the limits of the protocol is the packet
  itself (`decodeFrame_encodeFrame`).
-/

namespace Hns

def frameHeaderSize : ℕ := 9

def maxMessage : ℕ := 8 * 1000 * 1000

/-- What frames need of a network. -/
structure Network where
  magic : UInt32
  deriving DecidableEq

structure FrameHeader where
  magic : UInt32
  packetType : UInt8
  payloadLen : UInt32
  deriving DecidableEq

namespace FrameHeader

def encode (header : FrameHeader) : List UInt8 :=
  Octet.toLE 4 header.magic.toNat ++ [header.packetType] ++ Octet.toLE 4 header.payloadLen.toNat

/-- The fields of a header, in order. -/
def fields : PacketReader FrameHeader := do
  let magic ← Reader.u32Le eof
  let packetType ← Reader.u8 eof
  let payloadLen ← Reader.u32Le eof
  return ⟨magic, packetType, payloadLen⟩

def parse (data : List UInt8) : Except P2pError FrameHeader := do
  if data.length < frameHeaderSize then throw eof
  let (header, _) ← fields.run data
  return header

@[simp] theorem length_encode (header : FrameHeader) : header.encode.length = frameHeaderSize := by
  simp [encode, frameHeaderSize]

theorem parse_encode (header : FrameHeader) (rest : List UInt8) :
    parse (header.encode ++ rest) = .ok header := by
  have hread : fields.Reads header.encode header := by
    rw [encode, List.append_assoc]
    refine (Reader.reads_u32Le eof _).bind <| (Reader.reads_u8 eof _).bind ?_
    exact (Reader.reads_u32Le eof _).bind_pure _
  rw [parse, if_neg (by simp)]
  simp [hread rest, pure, Except.pure]

end FrameHeader

def encodeFrame (network : Network) (packet : Packet) : Except P2pError (List UInt8) := do
  let payload ← packet.encodePayload
  if maxMessage < payload.length then throw .messageTooLarge
  let header : FrameHeader :=
    ⟨network.magic, packet.packetType.code, UInt32.ofNat payload.length⟩
  return header.encode ++ payload

/-- The packet of the frame in front, with the length of the frame, if the frame is all there. -/
def decodeFrame (network : Network) (data : List UInt8) :
    Except P2pError (Option (Packet × ℕ)) := do
  if data.length < frameHeaderSize then return none
  let header ← FrameHeader.parse data
  if header.magic ≠ network.magic then throw .invalidMagic
  let payloadLen := header.payloadLen.toNat
  if maxMessage < payloadLen then throw .messageTooLarge
  let frameLen := frameHeaderSize + payloadLen
  if data.length < frameLen then return none
  let payload := (data.take frameLen).drop frameHeaderSize
  let packet ← Packet.decodePayload header.packetType payload
  return some (packet, frameLen)

/-! ## A header in front -/

/-- What is read of a header and what follows it. -/
theorem decodeFrame_header (network : Network) (header : FrameHeader) (tail : List UInt8) :
    decodeFrame network (header.encode ++ tail) =
      if header.magic ≠ network.magic then .error .invalidMagic
      else if maxMessage < header.payloadLen.toNat then .error .messageTooLarge
      else if tail.length < header.payloadLen.toNat then .ok none
      else do
        let packet ← Packet.decodePayload header.packetType (tail.take header.payloadLen.toNat)
        return some (packet, frameHeaderSize + header.payloadLen.toNat) := by
  have htake : ((header.encode ++ tail).take
      (frameHeaderSize + header.payloadLen.toNat)).drop frameHeaderSize =
        tail.take header.payloadLen.toNat := by
    rw [← header.length_encode, List.take_length_add_append, List.drop_left]
  rw [decodeFrame, if_neg (by simp), FrameHeader.parse_encode]
  simp only [Except.ok_bind, htake]
  simp only [List.length_append, FrameHeader.length_encode, Nat.add_lt_add_iff_left]
  split_ifs <;> rfl

/-- Nine octets are a header. -/
theorem FrameHeader.exists_eq_encode {data : List UInt8} (h : frameHeaderSize ≤ data.length) :
    ∃ (header : FrameHeader) (tail : List UInt8), data = header.encode ++ tail := by
  have hword (l : List UInt8) (hl : l.length = 4) :
      ∃ word : UInt32, l = Octet.toLE 4 word.toNat := by
    have hlt : Octet.ofBE l.reverse < 2 ^ 32 := by
      have := Octet.ofBE_lt l.reverse
      rw [List.length_reverse, hl] at this
      exact this
    refine ⟨UInt32.ofNat (Octet.ofBE l.reverse), List.reverse_injective ?_⟩
    rw [UInt32.toNat_ofNat_of_lt' hlt]
    refine Octet.ofBE_inj (by simp [hl]) ?_
    exact (Octet.ofBE_toBE_of_lt hlt).symm
  obtain ⟨magic, hmagic⟩ := hword (data.take 4) (by rw [frameHeaderSize] at h; simp; omega)
  obtain ⟨payloadLen, hpayload⟩ := hword ((data.drop 5).take 4)
    (by rw [frameHeaderSize] at h; simp; omega)
  refine ⟨⟨magic, data.getD 4 0, payloadLen⟩, data.drop 9, ?_⟩
  have htype : (data.drop 4).take 1 = [data.getD 4 0] := by
    have hlt : 4 < data.length := by
      rw [frameHeaderSize] at h
      omega
    rw [List.getD_eq_getElem?_getD, List.getElem?_eq_getElem hlt, Option.getD_some,
      List.drop_eq_getElem_cons hlt]
    rfl
  calc data = data.take 4 ++ ((data.drop 4).take 1 ++ ((data.drop 5).take 4 ++ data.drop 9)) := by
        rw [(by simp : data.drop 9 = (data.drop 5).drop 4), List.take_append_drop,
          (by simp : data.drop 5 = (data.drop 4).drop 1), List.take_append_drop,
          List.take_append_drop]
    _ = _ := by
        rw [hmagic, htype, hpayload, encode]
        simp

/-! ## A frame in front -/

/-- The octets are a frame of the packet, and nothing else. -/
def IsFrame (network : Network) (packet : Packet) (frame : List UInt8) : Prop :=
  decodeFrame network frame = .ok (some (packet, frame.length))

section

variable {network : Network} {packet : Packet} {frame : List UInt8}

/-- A frame is its header and its payload. -/
theorem IsFrame.exists_header (h : IsFrame network packet frame) :
    ∃ (header : FrameHeader) (payload : List UInt8), frame = header.encode ++ payload ∧
      header.magic = network.magic ∧ header.payloadLen.toNat ≤ maxMessage ∧
      payload.length = header.payloadLen.toNat ∧
      Packet.decodePayload header.packetType payload = .ok packet := by
  by_cases hshort : frame.length < frameHeaderSize
  · rw [IsFrame, decodeFrame, if_pos hshort] at h
    cases h
  obtain ⟨header, payload, rfl⟩ := FrameHeader.exists_eq_encode (not_lt.1 hshort)
  rw [IsFrame, decodeFrame_header] at h
  split_ifs at h with hmagic hlarge hpart
  · cases h
  obtain ⟨packet', hpacket, h⟩ := Except.bind_eq_ok.1 h
  obtain ⟨rfl, hlength⟩ := Prod.mk.inj (Option.some.inj (Except.ok.inj h))
  rw [List.length_append, FrameHeader.length_encode, Nat.add_left_cancel_iff] at hlength
  rw [hlength, List.take_length] at hpacket
  exact ⟨header, payload, rfl, not_not.1 hmagic, not_lt.1 hlarge, hlength.symm, hpacket⟩

theorem IsFrame.length_pos (h : IsFrame network packet frame) : 0 < frame.length := by
  obtain ⟨header, payload, rfl, -⟩ := h.exists_header
  rw [List.length_append, FrameHeader.length_encode]
  exact Nat.add_pos_left (by decide) _

/-- A frame in front is read, whatever follows it. -/
theorem IsFrame.append (h : IsFrame network packet frame) (rest : List UInt8) :
    decodeFrame network (frame ++ rest) = .ok (some (packet, frame.length)) := by
  obtain ⟨header, payload, rfl, hmagic, hlarge, hlength, hpacket⟩ := h.exists_header
  rw [List.append_assoc, decodeFrame_header, if_neg (not_not.2 hmagic), if_neg (not_lt.2 hlarge),
    if_neg (by simp [hlength]), ← hlength, List.take_left, hpacket, List.length_append,
    FrameHeader.length_encode]
  rfl

/-- Nothing is read of a frame that is not all there. -/
theorem IsFrame.part (h : IsFrame network packet frame) {part more : List UInt8}
    (hpart : part ++ more = frame) (hmore : more ≠ []) : decodeFrame network part = .ok none := by
  obtain ⟨header, payload, rfl, hmagic, hlarge, hlength, -⟩ := h.exists_header
  by_cases hshort : part.length < frameHeaderSize
  · rw [decodeFrame, if_pos hshort]
    rfl
  · -- The header is there, and the payload is waited for.
    have hheader : header.encode <+: part := by
      refine List.prefix_of_prefix_length_le (List.prefix_append _ payload) ⟨more, hpart⟩ ?_
      rw [header.length_encode]
      exact not_lt.1 hshort
    obtain ⟨tail, rfl⟩ := hheader
    rw [List.append_assoc, List.append_cancel_left_eq] at hpart
    have hlt : tail.length < header.payloadLen.toNat := by
      rw [← hlength, ← hpart, List.length_append]
      exact Nat.lt_add_of_pos_right (List.length_pos_of_ne_nil hmore)
    rw [decodeFrame_header, if_neg (not_not.2 hmagic), if_neg (not_lt.2 hlarge), if_pos hlt]

/-! ## A frame that has been written -/

/-- What a frame is made of. -/
theorem encodeFrame_eq_ok :
    encodeFrame network packet = .ok frame ↔
      ∃ payload, packet.encodePayload = .ok payload ∧ payload.length ≤ maxMessage ∧
        frame = FrameHeader.encode ⟨network.magic, packet.packetType.code,
          UInt32.ofNat payload.length⟩ ++ payload := by
  rw [encodeFrame, Except.bind_eq_ok]
  refine exists_congr fun payload => and_congr_right fun _ => ?_
  rw [Except.throw_unless, not_lt]
  exact and_congr_right fun _ => ⟨fun h => (Except.ok.inj h).symm, fun h => by rw [h]; rfl⟩

theorem length_of_encodeFrame (h : encodeFrame network packet = .ok frame) :
    frameHeaderSize ≤ frame.length ∧ frame.length ≤ maxMessage + frameHeaderSize := by
  obtain ⟨payload, -, hlen, rfl⟩ := encodeFrame_eq_ok.1 h
  rw [List.length_append, FrameHeader.length_encode]
  omega

/-- What has been written is a frame of what the other side makes of the packet. -/
theorem isFrame_of_encodeFrame (h : encodeFrame network packet = .ok frame) :
    IsFrame network packet.received frame := by
  obtain ⟨payload, hpayload, hlen, rfl⟩ := encodeFrame_eq_ok.1 h
  have hword : (UInt32.ofNat payload.length).toNat = payload.length := by
    rw [UInt32.toNat_ofNat', Nat.mod_eq_of_lt (hlen.trans_lt (by decide))]
  rw [IsFrame, decodeFrame_header, if_neg (not_not.2 rfl)]
  dsimp only
  rw [hword, if_neg (not_lt.2 hlen), if_neg (lt_irrefl _), List.take_length,
    Packet.decodePayload_encodePayload hpayload, List.length_append, FrameHeader.length_encode]
  rfl

/-- A frame in front is read as what the other side makes of the packet. -/
theorem decodeFrame_append (h : encodeFrame network packet = .ok frame) (rest : List UInt8) :
    decodeFrame network (frame ++ rest) = .ok (some (packet.received, frame.length)) :=
  (isFrame_of_encodeFrame h).append rest

end

/-! ## The limits of the protocol -/

/-- A packet of a known type that the protocol has room for, with no IPv4 address in disguise. -/
def Packet.WithinLimits : Packet → Prop
  | .version packet => (utf8 packet.agent).length ≤ maxAgentLen ∧ packet.remote.address.Plain
  | .addr items => items.length ≤ maxAddr ∧ ∀ item ∈ items, item.address.Plain
  | .getHeaders packet => packet.locator.length ≤ maxInv
  | .headers items => items.length ≤ maxHeaders
  | .proof packet =>
    packet.root.bytes.length + packet.key.bytes.length + packet.proof.length ≤ maxMessage
  | .unknown _ _ => False
  | _ => True

theorem length_writeU64Service (value : UInt64) : (writeU64Service value).length = 8 := by
  simp [writeU64Service]

theorem NetAddress.length_encode (address : NetAddress) : address.encode.length = 88 := by
  simp [encode, length_writeU64Service, Octets.length_bytes]

theorem length_writeCount_le (count : ℕ) : (writeCount count).length ≤ 9 := by
  rw [writeCount, writeVarint]
  split_ifs <;> simp

/-- Items of one length. -/
theorem length_flatMap_of_length {α : Type} {write : α → List UInt8} {width : ℕ} (l : List α)
    (h : ∀ a, (write a).length = width) : (l.flatMap write).length = l.length * width := by
  simp [List.length_flatMap, h]

/-- What is within the limits has a payload, of a length that a frame may have. -/
theorem Packet.WithinLimits.exists_payload {packet : Packet} (h : packet.WithinLimits) :
    ∃ payload, packet.encodePayload = .ok payload ∧ payload.length ≤ maxMessage := by
  cases packet with
  | version packet =>
    refine ⟨_, if_neg h.1.not_gt, ?_⟩
    have := h.1
    simp [length_writeU64Service, NetAddress.length_encode, Octets.length_bytes, maxMessage]
    rw [maxAgentLen] at this
    omega
  | addr items =>
    refine ⟨_, if_neg h.1.not_gt, ?_⟩
    have := h.1
    have := length_writeCount_le items.length
    rw [List.length_append, length_flatMap_of_length items NetAddress.length_encode]
    simp only [maxAddr, maxMessage] at *
    omega
  | getHeaders packet =>
    have hlen : packet.locator.length ≤ maxInv := h
    refine ⟨_, if_neg hlen.not_gt, ?_⟩
    have := length_writeCount_le packet.locator.length
    rw [List.length_append, List.length_append,
      length_flatMap_of_length packet.locator Octets.length_bytes, packet.stop.length_bytes]
    simp only [maxInv, maxMessage] at *
    omega
  | headers items =>
    have hlen : items.length ≤ maxHeaders := h
    refine ⟨_, if_neg hlen.not_gt, ?_⟩
    have := length_writeCount_le items.length
    rw [List.length_append, length_flatMap_of_length items BlockHeader.length_serialize]
    simp only [maxHeaders, maxMessage, headerSize] at *
    omega
  | ping nonce | pong nonce => exact ⟨nonce.bytes, rfl, by simp [nonce.length_bytes, maxMessage]⟩
  | verack | getAddr | sendHeaders => exact ⟨[], rfl, by simp⟩
  | getProof packet =>
    refine ⟨_, rfl, ?_⟩
    simp [packet.root.length_bytes, packet.key.length_bytes, maxMessage]
  | proof packet =>
    refine ⟨_, rfl, ?_⟩
    rw [List.length_append, List.length_append]
    exact h
  | unknown packetType payload => exact h.elim

theorem Packet.WithinLimits.plain {packet : Packet} (h : packet.WithinLimits) : packet.Plain := by
  cases packet with
  | version packet => exact h.2
  | addr items => exact h.2
  | unknown packetType payload => exact h.elim
  | _ => trivial

/-- Within the limits of the protocol a packet is read as it has been written. -/
theorem decodeFrame_encodeFrame (network : Network) {packet : Packet} (h : packet.WithinLimits) :
    ∃ frame, encodeFrame network packet = .ok frame ∧
      ∀ rest, decodeFrame network (frame ++ rest) = .ok (some (packet, frame.length)) := by
  obtain ⟨payload, hpayload, hlen⟩ := h.exists_payload
  obtain ⟨frame, hframe⟩ : ∃ frame, encodeFrame network packet = .ok frame :=
    ⟨_, encodeFrame_eq_ok.2 ⟨payload, hpayload, hlen, rfl⟩⟩
  refine ⟨frame, hframe, fun rest => ?_⟩
  rw [decodeFrame_append hframe, Packet.received_eq_self.2 h.plain]

/-- An address among others is read as it has been written. -/
theorem decodeFrame_encodeFrame_addr :
    ∃ frame, encodeFrame ⟨1533997779⟩ (.addr [⟨0, 1, .v4 ⟨[127, 0, 0, 1], rfl⟩, 12038⟩]) = .ok frame ∧
      ∀ rest, decodeFrame ⟨1533997779⟩ (frame ++ rest) =
        .ok (some (.addr [⟨0, 1, .v4 ⟨[127, 0, 0, 1], rfl⟩, 12038⟩], frame.length)) := by
  refine decodeFrame_encodeFrame _ ⟨by decide, ?_⟩
  intro item hitem
  obtain rfl := List.mem_singleton.1 hitem
  simp [IpAddr.Plain]

end Hns
