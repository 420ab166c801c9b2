import Hns.Core.Utf8
import Hns.Sync.Session

/-!
# Packets on the wire

How `hns-p2p` writes the payload of a packet (`Packet.encodePayload`) and reads
it (`Packet.decodePayload`). Two things are not written as they are: an IPv6
address that is a mapped IPv4 address is read as the latter, and the type of a
packet that is not known is not sent. What the other side makes of a packet is
thus `Packet.received`, and what is written is read as that
(`decodePayload_encodePayload`).
-/

namespace Hns

def maxAgentLen : ℕ := 255

/-- The end of the payload. -/
def eof : P2pError := .parse .unexpectedEof

abbrev PacketReader := Reader P2pError

/-! ## Numbers -/

def writeU64Service (value : UInt64) : List UInt8 :=
  let low := value.toUInt32
  let high := (value >>> 32).toUInt32
  Octet.toLE 4 low.toNat ++ Octet.toLE 4 high.toNat

def readU64Service : PacketReader UInt64 := do
  let low ← Reader.u32Le eof
  let high ← Reader.u32Le eof
  return low.toUInt64 ||| (high.toUInt64 <<< 32)

theorem reads_u64Service (value : UInt64) :
    readU64Service.Reads (writeU64Service value) value := by
  have hvalue : value.toUInt32.toUInt64 ||| ((value >>> 32).toUInt32.toUInt64 <<< 32) = value := by
    refine UInt64.toNat_inj.1 ?_
    have hlt : value.toNat < 2 ^ 64 := value.toNat_lt
    have hshift : UInt64.toNat 32 % 64 = 32 := rfl
    -- The low half is below the high one, so that the disjunction is a sum.
    have hor := Nat.two_pow_add_eq_or_of_lt (Nat.mod_lt value.toNat (Nat.two_pow_pos 32))
      (value.toNat / 2 ^ 32)
    simp only [UInt64.toNat_or, UInt32.toNat_toUInt64, UInt64.toNat_toUInt32,
      UInt64.toNat_shiftLeft, UInt64.toNat_shiftRight, hshift, Nat.shiftLeft_eq,
      Nat.shiftRight_eq_div_pow]
    norm_num at hor hlt ⊢
    rw [Nat.mod_eq_of_lt (by omega : value.toNat / 4294967296 < 4294967296),
      Nat.mod_eq_of_lt (by omega : value.toNat / 4294967296 * 4294967296 < 18446744073709551616),
      Nat.or_comm, Nat.mul_comm, ← hor]
    omega
  have h : readU64Service.Reads (writeU64Service value)
      (value.toUInt32.toUInt64 ||| ((value >>> 32).toUInt32.toUInt64 <<< 32)) :=
    (Reader.reads_u32Le eof _).bind ((Reader.reads_u32Le eof _).bind_pure _)
  rwa [hvalue] at h

def writeVarint (value : UInt64) : List UInt8 :=
  if value ≤ 0xfc then [value.toUInt8]
  else if value ≤ 0xffff then 0xfd :: Octet.toLE 2 value.toNat
  else if value ≤ 0xffffffff then 0xfe :: Octet.toLE 4 value.toNat
  else 0xff :: Octet.toLE 8 value.toNat

/-- `u16::swap_bytes`. -/
def swapBytes (n : UInt16) : UInt16 := UInt16.ofNat (Octet.ofBE n.toBE.reverse)

/-- `u16::from_be_bytes`. -/
def readU16Be : PacketReader UInt16 := do
  let piece ← Reader.bytes eof 2
  return UInt16.ofNat (Octet.ofBE piece)

def readVarint : PacketReader UInt64 := do
  let first ← Reader.u8 eof
  if first ≤ 0xfc then return first.toUInt64
  else if first = 0xfd then
    let value := (swapBytes (← readU16Be)).toUInt64
    if value < 0xfd then throw .nonCanonicalVarint
    return value
  else if first = 0xfe then
    let value := (← Reader.u32Le eof).toUInt64
    if value ≤ 0xffff then throw .nonCanonicalVarint
    return value
  else
    let value ← Reader.u64Le eof
    if value ≤ 0xffffffff then throw .nonCanonicalVarint
    return value

/-- The octets of a word, read in the one order and swapped, are those of the other. -/
theorem reads_u16Be (n : UInt16) :
    readU16Be.Reads (Octet.toLE 2 n.toNat) (UInt16.ofNat (Octet.ofBE (Octet.toLE 2 n.toNat))) :=
  (Reader.reads_bytes_of_length eof (Octet.length_toLE 2 _)).bind_pure _

theorem swapBytes_ofBE_toLE (n : UInt16) :
    swapBytes (UInt16.ofNat (Octet.ofBE (Octet.toLE 2 n.toNat))) = n := by
  have hbe (a b : UInt8) : (UInt16.ofNat (Octet.ofBE [a, b])).toBE = [a, b] := Octet.toBE_be16 a b
  have hlt : n.toNat < 256 ^ 2 := n.toNat_lt
  have hread : Octet.ofBE (Octet.toLE 2 n.toNat).reverse = n.toNat := Octet.ofBE_toBE_of_lt hlt
  rw [swapBytes]
  simp only [Octet.toLE] at hread ⊢
  rw [hbe, hread, UInt16.ofNat_toNat]

theorem reads_varint (value : UInt64) : readVarint.Reads (writeVarint value) value := by
  -- Whatever the width, the word that is written is the value.
  have h8 (h : value ≤ 0xfc) : value.toUInt8.toNat = value.toNat := by
    rw [UInt64.le_iff_toNat_le] at h
    rw [UInt64.toNat_toUInt8, Nat.mod_eq_of_lt (h.trans_lt (by decide))]
  have h16 (h : value ≤ 0xffff) : value.toUInt16.toNat = value.toNat := by
    rw [UInt64.le_iff_toNat_le] at h
    rw [UInt64.toNat_toUInt16, Nat.mod_eq_of_lt (h.trans_lt (by decide))]
  have h32 (h : value ≤ 0xffffffff) : value.toUInt32.toNat = value.toNat := by
    rw [UInt64.le_iff_toNat_le] at h
    rw [UInt64.toNat_toUInt32, Nat.mod_eq_of_lt (h.trans_lt (by decide))]
  rw [writeVarint, readVarint]
  split_ifs with h₁ h₂ h₃
  · have hvalue : value.toUInt8.toUInt64 = value :=
      UInt64.toNat_inj.1 (by rw [UInt8.toNat_toUInt64, h8 h₁])
    have hfirst : value.toUInt8 ≤ 0xfc := by
      rw [UInt8.le_iff_toNat_le, h8 h₁]
      exact UInt64.le_iff_toNat_le.1 h₁
    refine (Reader.reads_u8 eof value.toUInt8).bind_nil (.ite_pos hfirst ?_)
    nth_rewrite 2 [← hvalue]
    exact .pure _
  · have hvalue : value.toUInt16.toUInt64 = value :=
      UInt64.toNat_inj.1 (by rw [UInt16.toNat_toUInt64, h16 h₂])
    refine (Reader.reads_u8 eof 0xfd).bind (.ite_neg (by decide) (.ite_pos rfl ?_))
    rw [← h16 h₂]
    refine (reads_u16Be value.toUInt16).bind_nil ?_
    rw [swapBytes_ofBE_toLE, hvalue]
    refine .guard ?_ (.pure _)
    rw [UInt64.lt_iff_toNat_lt, not_lt]
    exact UInt64.lt_iff_toNat_lt.1 (UInt64.not_le.1 h₁)
  · have hvalue : value.toUInt32.toUInt64 = value :=
      UInt64.toNat_inj.1 (by rw [UInt32.toNat_toUInt64, h32 h₃])
    refine (Reader.reads_u8 eof 0xfe).bind (.ite_neg (by decide) ?_)
    refine .ite_neg (by decide) (.ite_pos rfl ?_)
    rw [← h32 h₃]
    refine (Reader.reads_u32Le eof value.toUInt32).bind_nil ?_
    rw [hvalue]
    exact .guard h₂ (.pure _)
  · refine (Reader.reads_u8 eof 0xff).bind (.ite_neg (by decide) ?_)
    refine .ite_neg (by decide) (.ite_neg (by decide) ?_)
    exact (Reader.reads_u64Le eof value).bind_nil (.guard h₃ (.pure _))

/-! ## Addresses -/

/-- What stands before an IPv4 address where an IPv6 address is written. -/
def mappedPrefix : List UInt8 := List.replicate 10 0 ++ [0xff, 0xff]

/-- The sixteen octets that are written for an address. -/
def IpAddr.mapped : IpAddr → Octets 16
  | .v4 octets => ⟨mappedPrefix ++ octets.bytes, by simp [mappedPrefix, octets.length_bytes]⟩
  | .v6 octets => octets

/-- The address that sixteen octets are read as. -/
def IpAddr.ofMapped (raw : Octets 16) : IpAddr :=
  if raw.bytes.take 12 = mappedPrefix then
    .v4 ⟨raw.bytes.drop 12, by simp [raw.length_bytes]⟩
  else .v6 raw

/-- An address that is not an IPv4 address in disguise. -/
def IpAddr.Plain (address : IpAddr) : Prop :=
  ∀ octets, address = .v6 octets → octets.bytes.take 12 ≠ mappedPrefix

/-- Only an IPv4 address in disguise is read as another one. -/
theorem IpAddr.ofMapped_mapped_iff {address : IpAddr} :
    ofMapped address.mapped = address ↔ address.Plain := by
  cases address with
  | v4 octets =>
    have htake : (mappedPrefix ++ octets.bytes).take 12 = mappedPrefix := by simp [mappedPrefix]
    have hdrop : (mappedPrefix ++ octets.bytes).drop 12 = octets.bytes := by simp [mappedPrefix]
    simp [mapped, ofMapped, Plain, htake, hdrop]
  | v6 octets =>
    rw [mapped, ofMapped]
    by_cases h : octets.bytes.take 12 = mappedPrefix
    · simp [h, Plain]
    · simp [h, Plain]

namespace NetAddress

def encode (address : NetAddress) : List UInt8 :=
  Octet.toLE 8 address.time.toNat ++ writeU64Service address.services ++ [0] ++
    address.address.mapped.bytes ++ List.replicate 20 0 ++ Octet.toLE 2 address.port.toNat ++
    List.replicate 33 0

/-- The octets of an address, after the octet that says of which kind it is. -/
def decodeRaw (kind : UInt8) : PacketReader (Octets 16) := do
  if kind = 0 then
    let rawAddress ← Reader.array eof 16
    let _ ← Reader.bytes eof 20
    return rawAddress
  else
    let _ ← Reader.bytes eof 36
    return .zero

def decode : PacketReader NetAddress := do
  let time ← Reader.u64Le eof
  let services ← readU64Service
  let kind ← Reader.u8 eof
  let rawAddress ← decodeRaw kind
  let port ← Reader.u16Le eof
  let _ ← Reader.bytes eof 33
  return ⟨time, services, .ofMapped rawAddress, port⟩

/-- What the other side makes of an address. -/
def received (address : NetAddress) : NetAddress :=
  { address with address := .ofMapped address.address.mapped }

theorem reads_decode (address : NetAddress) : decode.Reads address.encode address.received := by
  have hpad (n : ℕ) : (Reader.bytes eof n).Reads (List.replicate n 0) (List.replicate n 0) :=
    Reader.reads_bytes_of_length eof List.length_replicate
  have hraw : (decodeRaw 0).Reads (address.address.mapped.bytes ++ List.replicate 20 0)
      address.address.mapped :=
    .ite_pos rfl ((Reader.reads_array eof _).bind ((hpad 20).bind_pure _))
  rw [encode]
  simp only [List.append_assoc]
  refine (Reader.reads_u64Le eof _).bind <| (reads_u64Service _).bind <| (Reader.reads_u8 eof 0).bind ?_
  rw [← List.append_assoc]
  exact hraw.bind <| (Reader.reads_u16Le eof _).bind <| (hpad 33).bind_pure _

theorem received_eq_self {address : NetAddress} : address.received = address ↔ address.address.Plain := by
  obtain ⟨time, services, ip, port⟩ := address
  simp [received, IpAddr.ofMapped_mapped_iff]

end NetAddress

/-! ## Payloads -/

namespace VersionPacket

def encode (packet : VersionPacket) : Except P2pError (List UInt8) :=
  let agent := utf8 packet.agent
  if maxAgentLen < agent.length then .error .agentTooLong
  else
    .ok (Octet.toLE 4 packet.version.toNat ++ writeU64Service packet.services ++
      Octet.toLE 8 packet.time.toNat ++ packet.remote.encode ++ packet.nonce.bytes ++
      [UInt8.ofNat agent.length] ++ agent ++ Octet.toLE 4 packet.height.toNat ++
      [packet.noRelay.toUInt8])

def decode : PacketReader VersionPacket := do
  let version ← Reader.u32Le eof
  let services ← readU64Service
  let time ← Reader.u64Le eof
  let remote ← NetAddress.decode
  let nonce ← Reader.array eof 8
  let agentLen ← Reader.u8 eof
  if maxAgentLen < agentLen.toNat then throw .agentTooLong
  let octets ← Reader.bytes eof agentLen.toNat
  let agent ← liftM (Except.ofOption (P2pError.parse .invalidDnsLabel) (fromUtf8 octets))
  let height ← Reader.u32Le eof
  let noRelay ← Reader.u8 eof
  return ⟨version, services, time, remote, nonce, agent, height, noRelay = 1⟩

/-- What the other side makes of a version. -/
def received (packet : VersionPacket) : VersionPacket :=
  { packet with remote := packet.remote.received }

theorem reads_decode {packet : VersionPacket} {payload : List UInt8}
    (h : packet.encode = .ok payload) : decode.Reads payload packet.received := by
  rw [encode] at h
  split_ifs at h with hlen
  obtain rfl := Except.ok.inj h
  have hagent : (UInt8.ofNat (utf8 packet.agent).length).toNat = (utf8 packet.agent).length := by
    rw [UInt8.toNat_ofNat', Nat.mod_eq_of_lt]
    rw [maxAgentLen] at hlen
    omega
  have hlift : (liftM (Except.ofOption (P2pError.parse .invalidDnsLabel)
      (fromUtf8 (utf8 packet.agent))) : PacketReader _).Reads [] packet.agent :=
    .lift (by rw [fromUtf8_utf8]; rfl)
  have hrelay : decide (packet.noRelay.toUInt8 = 1) = packet.noRelay := by
    cases packet.noRelay <;> rfl
  simp only [List.append_assoc]
  refine (Reader.reads_u32Le eof _).bind <| (reads_u64Service _).bind ?_
  refine (Reader.reads_u64Le eof _).bind <| (NetAddress.reads_decode _).bind ?_
  refine (Reader.reads_array eof _).bind <| (Reader.reads_u8 eof _).bind <| .guard (by rwa [hagent]) ?_
  refine (Reader.reads_bytes_of_length eof hagent.symm).bind <| hlift.nil_bind ?_
  refine (Reader.reads_u32Le eof _).bind <| (Reader.reads_u8 eof _).bind_nil ?_
  rw [hrelay]
  exact .pure _

end VersionPacket

/-! ### Lists -/

/-- The number of the items that follow. -/
def readCount (limit : ℕ) : PacketReader ℕ := do
  let count ← readVarint
  if limit < count.toNat then throw .countLimit
  return count.toNat

def writeCount (count : ℕ) : List UInt8 := writeVarint (UInt64.ofNat count)

theorem reads_count {limit count : ℕ} (hlimit : limit < 2 ^ 64) (h : count ≤ limit) :
    (readCount limit).Reads (writeCount count) count := by
  have hcount : (UInt64.ofNat count).toNat = count := by
    rw [UInt64.toNat_ofNat', Nat.mod_eq_of_lt (h.trans_lt hlimit)]
  refine (reads_varint _).bind_nil ?_
  rw [hcount]
  exact .guard h.not_gt (.pure _)

/-- `AddrPacket::encode`. -/
def encodeAddr (items : List NetAddress) : Except P2pError (List UInt8) :=
  if maxAddr < items.length then .error .countLimit
  else .ok (writeCount items.length ++ items.flatMap NetAddress.encode)

/-- `AddrPacket::decode`. -/
def decodeAddr : PacketReader (List NetAddress) := do
  let count ← readCount maxAddr
  Reader.list NetAddress.decode count

theorem reads_addr {items : List NetAddress} {payload : List UInt8}
    (h : encodeAddr items = .ok payload) :
    decodeAddr.Reads payload (items.map NetAddress.received) := by
  rw [encodeAddr] at h
  split_ifs at h with hlen
  obtain rfl := Except.ok.inj h
  refine (reads_count (by decide) (not_lt.1 hlen)).bind ?_
  exact .list fun address _ => address.reads_decode

namespace LocatorPacket

def encode (packet : LocatorPacket) : Except P2pError (List UInt8) :=
  if maxInv < packet.locator.length then .error .countLimit
  else
    .ok (writeCount packet.locator.length ++ packet.locator.flatMap Octets.bytes ++
      packet.stop.bytes)

def decode : PacketReader LocatorPacket := do
  let count ← readCount maxInv
  let locator ← Reader.list (Reader.array eof 32) count
  let stop ← Reader.array eof 32
  return ⟨locator, stop⟩

theorem reads_decode {packet : LocatorPacket} {payload : List UInt8}
    (h : packet.encode = .ok payload) : decode.Reads payload packet := by
  rw [encode] at h
  split_ifs at h with hlen
  obtain rfl := Except.ok.inj h
  have hhashes : (Reader.list (Reader.array eof 32) packet.locator.length).Reads
      (packet.locator.flatMap Octets.bytes) packet.locator := by
    have hread := Reader.Reads.list (l := packet.locator) fun hash _ => Reader.reads_array eof hash
    rwa [List.map_id'] at hread
  rw [List.append_assoc]
  refine (reads_count (by decide) (not_lt.1 hlen)).bind <| hhashes.bind ?_
  exact (Reader.reads_array eof _).bind_pure _

end LocatorPacket

/-- `HeadersPacket::encode`. -/
def encodeHeaders (items : List BlockHeader) : Except P2pError (List UInt8) :=
  if maxHeaders < items.length then .error .countLimit
  else .ok (writeCount items.length ++ items.flatMap BlockHeader.serialize)

/-- A header among others. -/
def decodeHeader : PacketReader BlockHeader := do
  let data ← Reader.bytes eof headerSize
  liftM ((BlockHeader.parse data).mapError P2pError.parse)

/-- `HeadersPacket::decode`. -/
def decodeHeaders : PacketReader (List BlockHeader) := do
  let count ← readCount maxHeaders
  Reader.list decodeHeader count

theorem reads_headers {items : List BlockHeader} {payload : List UInt8}
    (h : encodeHeaders items = .ok payload) : decodeHeaders.Reads payload items := by
  rw [encodeHeaders] at h
  split_ifs at h with hlen
  obtain rfl := Except.ok.inj h
  have hheader (header : BlockHeader) : decodeHeader.Reads header.serialize header := by
    refine (Reader.reads_bytes_of_length eof header.length_serialize).bind_nil (.lift ?_)
    rw [BlockHeader.parse_serialize]
    rfl
  have hread := Reader.Reads.list (l := items) fun header _ => hheader header
  rw [List.map_id'] at hread
  exact (reads_count (by decide) (not_lt.1 hlen)).bind hread

/-! ### Packets -/

/-- The types of packets, by number. -/
inductive PacketType
  | version
  | verack
  | ping
  | pong
  | getAddr
  | addr
  | getHeaders
  | headers
  | sendHeaders
  | getProof
  | proof
  | unknown
  deriving DecidableEq

/-- `PacketType as u8`. -/
def PacketType.code : PacketType → UInt8
  | .version => 0
  | .verack => 1
  | .ping => 2
  | .pong => 3
  | .getAddr => 4
  | .addr => 5
  | .getHeaders => 10
  | .headers => 11
  | .sendHeaders => 12
  | .getProof => 26
  | .proof => 27
  | .unknown => 30

namespace Packet

def packetType : Packet → PacketType
  | .version _ => .version
  | .verack => .verack
  | .ping _ => .ping
  | .pong _ => .pong
  | .getAddr => .getAddr
  | .addr _ => .addr
  | .getHeaders _ => .getHeaders
  | .headers _ => .headers
  | .sendHeaders => .sendHeaders
  | .getProof _ => .getProof
  | .proof _ => .proof
  | .unknown _ _ => .unknown

def encodePayload : Packet → Except P2pError (List UInt8)
  | .version packet => packet.encode
  | .verack | .getAddr | .sendHeaders => .ok []
  | .ping nonce | .pong nonce => .ok nonce.bytes
  | .addr items => encodeAddr items
  | .getHeaders packet => packet.encode
  | .headers items => encodeHeaders items
  | .getProof packet => .ok (packet.root.bytes ++ packet.key.bytes)
  | .proof packet => .ok (packet.root.bytes ++ packet.key.bytes ++ packet.proof)
  | .unknown _ payload => .ok payload

/-- The packet of a payload, and what is left of the payload. -/
def readPayload (packetType : UInt8) (payload : List UInt8) : PacketReader Packet :=
  match packetType with
  | 0 => .version <$> VersionPacket.decode
  | 1 => return .verack
  | 2 => .ping <$> Reader.array eof 8
  | 3 => .pong <$> Reader.array eof 8
  | 4 => return .getAddr
  | 5 => .addr <$> decodeAddr
  | 10 => .getHeaders <$> LocatorPacket.decode
  | 11 => .headers <$> decodeHeaders
  | 12 => return .sendHeaders
  | 26 => do
    let root ← Reader.array eof 32
    let key ← Reader.array eof 32
    return .getProof ⟨root, key⟩
  | 27 => do
    let root ← Reader.array eof 32
    let key ← Reader.array eof 32
    let proof ← Reader.bytes eof (← get).length
    return .proof ⟨root, key, proof⟩
  | other => return .unknown other payload

def decodePayload (packetType : UInt8) (payload : List UInt8) : Except P2pError Packet := do
  let (packet, rest) ← (readPayload packetType payload).run payload
  if packet.packetType ≠ .unknown ∧ rest ≠ [] then throw .trailingBytes
  return packet

/-- What the other side makes of a packet. -/
def received : Packet → Packet
  | .version packet => .version packet.received
  | .addr items => .addr (items.map NetAddress.received)
  | .unknown _ payload => .unknown PacketType.unknown.code payload
  | packet => packet

/-- A packet that the other side makes the same of. -/
def Plain : Packet → Prop
  | .version packet => packet.remote.address.Plain
  | .addr items => ∀ item ∈ items, item.address.Plain
  | .unknown packetType _ => packetType = PacketType.unknown.code
  | _ => True

theorem received_eq_self {packet : Packet} : packet.received = packet ↔ packet.Plain := by
  cases packet with
  | version packet =>
    obtain ⟨version, services, time, remote, nonce, agent, height, noRelay⟩ := packet
    simp [received, VersionPacket.received, Plain, NetAddress.received_eq_self]
  | addr items =>
    have h : items.map NetAddress.received = items.map id ↔ ∀ item ∈ items, item.received = item :=
      List.map_inj_left
    rw [List.map_id] at h
    simp only [received, Packet.addr.injEq, Plain, h, NetAddress.received_eq_self]
  | unknown packetType payload => simp [received, Plain, eq_comm]
  | _ => simp [received, Plain]

/-- A payload that is read to its end. -/
theorem decodePayload_of_run {packetType : UInt8} {payload : List UInt8} {packet : Packet}
    (h : (readPayload packetType payload).run payload = .ok (packet, [])) :
    decodePayload packetType payload = .ok packet := by
  simp [decodePayload, h, pure, Except.pure]

/-- What has been written is read as what the other side makes of it. -/
theorem decodePayload_encodePayload {packet : Packet} {payload : List UInt8}
    (h : packet.encodePayload = .ok payload) :
    decodePayload packet.packetType.code payload = .ok packet.received := by
  cases packet with
  | version packet => exact decodePayload_of_run ((VersionPacket.reads_decode h).map _).run_eq
  | addr items => exact decodePayload_of_run ((reads_addr h).map _).run_eq
  | getHeaders packet => exact decodePayload_of_run ((LocatorPacket.reads_decode h).map _).run_eq
  | headers items => exact decodePayload_of_run ((reads_headers h).map _).run_eq
  | ping nonce =>
    obtain rfl := Except.ok.inj h
    exact decodePayload_of_run ((Reader.reads_array eof nonce).map _).run_eq
  | pong nonce =>
    obtain rfl := Except.ok.inj h
    exact decodePayload_of_run ((Reader.reads_array eof nonce).map _).run_eq
  | verack | getAddr | sendHeaders =>
    obtain rfl := Except.ok.inj h
    rfl
  | getProof packet =>
    obtain rfl := Except.ok.inj h
    refine decodePayload_of_run (Reader.Reads.run_eq ?_)
    exact (Reader.reads_array eof _).bind ((Reader.reads_array eof _).bind_pure _)
  | proof packet =>
    obtain rfl := Except.ok.inj h
    have hroot := Reader.reads_array eof packet.root
    have hkey := Reader.reads_array eof packet.key
    refine decodePayload_of_run ?_
    rw [List.append_assoc]
    refine (hroot.run_bind _ _).trans ((hkey.run_bind _ _).trans ?_)
    exact ((Reader.reads_bytes eof packet.proof).bind_pure
      fun proof => Packet.proof ⟨packet.root, packet.key, proof⟩).run_eq
  | unknown packetType payload =>
    obtain rfl := Except.ok.inj h
    -- The payload is taken as it is, and nothing of it is read.
    have hread : (readPayload PacketType.unknown.code payload).run payload =
        .ok (.unknown PacketType.unknown.code payload, payload) := rfl
    rw [Packet.packetType, decodePayload, hread]
    rfl

end Packet

end Hns
