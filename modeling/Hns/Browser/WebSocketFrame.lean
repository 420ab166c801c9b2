import Hns.Lib.Front
import Hns.Lib.Octets

/-!
# The frames of WebSockets

`HnsWebSocketFrameParser` and `HnsWebSocketFrameCodec`, and the frames of RFC 6455 (`IsFrame`): one
of them is read whatever form its length has and whether it is masked or not
(`parseFrame_of_isFrame`), and what the client writes is one of them (`isFrame_encodeClientFrame`).
-/

namespace Hns.WebSocket

open Octet

structure HnsWebSocketFrame where
  fin : Bool
  opcode : ℕ
  payload : List UInt8
  deriving DecidableEq

def opcodeContinuation : ℕ := 0x0

def opcodeText : ℕ := 0x1

def opcodeBinary : ℕ := 0x2

def opcodeClose : ℕ := 0x8

def opcodePing : ℕ := 0x9

def opcodePong : ℕ := 0xa

/-! ## The parser -/

def frameTooLarge : String := "websocket frame is too large"

/-- The length of the payload, when there is enough of it. -/
def lengthOf (marker : ℕ) (rest : List UInt8) : Except String (Option (ℕ × List UInt8)) :=
  if marker = 126 then
    if rest.length < 2 then .ok none else .ok (some (ofBE (rest.take 2), rest.drop 2))
  else if marker = 127 then
    if rest.length < 8 then .ok none
    else if 2 ^ 63 ≤ ofBE (rest.take 8) then .error frameTooLarge
    else .ok (some (ofBE (rest.take 8), rest.drop 8))
  else .ok (some (marker, rest))

/-- Every octet is masked with one of the four octets of the mask. -/
def applyMask (mask payload : List UInt8) : List UInt8 :=
  payload.mapIdx fun index byte => byte ^^^ mask.getD (index % 4) 0

/-- The payload, when there is enough of it, and what is behind. -/
def payloadOf (masked : Bool) (payloadLength : ℕ) (rest : List UInt8) :
    Option (List UInt8 × List UInt8) :=
  let maskBytes := if masked then 4 else 0
  if rest.length < maskBytes + payloadLength then none
  else
    let payload := (rest.drop maskBytes).take payloadLength
    some (if masked then applyMask (rest.take maskBytes) payload else payload,
      rest.drop (maskBytes + payloadLength))

/-- One turn of the loop of `parseAvailableFrames`. -/
def parseFrame (maxPayloadBytes : ℕ) :
    List UInt8 → Except String (Option (HnsWebSocketFrame × List UInt8))
  | first :: second :: rest =>
    match lengthOf (second &&& 0x7f).toNat rest with
    | .error e => .error e
    | .ok none => .ok none
    | .ok (some (payloadLength, rest)) =>
      if maxPayloadBytes < payloadLength then .error frameTooLarge
      else .ok ((payloadOf (second &&& 0x80 ≠ 0) payloadLength rest).map fun (payload, rest) =>
        (⟨first &&& 0x80 ≠ 0, (first &&& 0x0f).toNat, payload⟩, rest))
  | _ => .ok none

/-- `MAX_PAYLOAD_BYTES` -/
def maxPayloadBytes : ℕ := 16 * 1024 * 1024

/-! ## The codec -/

def writeLength (length : ℕ) (masked : Bool) : List UInt8 :=
  let maskBit := if masked then 0x80 else 0
  if length < 126 then [UInt8.ofNat (maskBit ||| length)]
  else if length ≤ 0xffff then UInt8.ofNat (maskBit ||| 126) :: toBE 2 length
  else UInt8.ofNat (maskBit ||| 127) :: toBE 8 length

def encodeClientFrame (opcode : ℕ) (payload mask : List UInt8) : Except String (List UInt8) :=
  if mask.length = 4 then
    .ok (UInt8.ofNat (0x80 ||| (opcode &&& 0x0f)) :: (writeLength payload.length true ++ mask ++
      applyMask mask payload))
  else .error "mask must be 4 bytes"

/-! ## Frames -/

/-- The length in the second octet, and behind it: any form that there is for it. -/
inductive IsLength : ℕ → List UInt8 → ℕ → Prop
  | here {n : ℕ} (h : n < 126) : IsLength n [] n
  | short {n : ℕ} (h : n < 2 ^ 16) : IsLength 126 (toBE 2 n) n
  | long {n : ℕ} (h : n < 2 ^ 63) : IsLength 127 (toBE 8 n) n

/-- The octets of a frame, with a mask or without (RFC 6455, section 5.2). -/
inductive IsFrame (frame : HnsWebSocketFrame) : List UInt8 → Prop
  | bare {marker : ℕ} {octets : List UInt8} (hopcode : frame.opcode < 16)
      (hlength : IsLength marker octets frame.payload.length) :
      IsFrame frame (UInt8.ofNat ((if frame.fin then 0x80 else 0) + frame.opcode) ::
        UInt8.ofNat marker :: (octets ++ frame.payload))
  | masked {marker : ℕ} {octets mask : List UInt8} (hopcode : frame.opcode < 16)
      (hlength : IsLength marker octets frame.payload.length) (hmask : mask.length = 4) :
      IsFrame frame (UInt8.ofNat ((if frame.fin then 0x80 else 0) + frame.opcode) ::
        UInt8.ofNat (0x80 + marker) :: (octets ++ (mask ++ applyMask mask frame.payload)))

@[simp] theorem length_applyMask (mask payload : List UInt8) :
    (applyMask mask payload).length = payload.length := List.length_mapIdx

/-- A mask is taken off as it is put on. -/
@[simp] theorem applyMask_applyMask (mask payload : List UInt8) :
    applyMask mask (applyMask mask payload) = payload := by
  rw [applyMask, applyMask, List.mapIdx_mapIdx]
  exact List.mapIdx_eq_iff.2 fun i => by simp [Function.comp_def, UInt8.xor_assoc]

theorem lengthOf_of_isLength {marker n : ℕ} {octets : List UInt8} (h : IsLength marker octets n)
    (rest : List UInt8) : lengthOf marker (octets ++ rest) = .ok (some (n, rest)) := by
  cases h with
  | here h => rw [lengthOf, if_neg (by omega), if_neg (by omega), List.nil_append]
  | short h =>
    have hvalue : ofBE (toBE 2 n) = n := ofBE_toBE_of_lt h
    have hlength : (toBE 2 n).length = 2 := length_toBE 2 n
    rw [lengthOf, if_pos rfl, if_neg (by rw [List.length_append, hlength]; omega),
      List.take_left' hlength, List.drop_left' hlength, hvalue]
  | long h =>
    have hvalue : ofBE (toBE 8 n) = n := ofBE_toBE_of_lt (h.trans (by decide))
    have hlength : (toBE 8 n).length = 8 := length_toBE 8 n
    rw [lengthOf, if_neg (by decide), if_pos rfl, if_neg (by rw [List.length_append, hlength]; omega),
      List.take_left' hlength, List.drop_left' hlength, hvalue, if_neg (not_le.2 h)]

theorem IsLength.lt {marker n : ℕ} {octets : List UInt8} (h : IsLength marker octets n) :
    marker < 128 := by
  cases h with
  | here h => omega
  | short => decide
  | long => decide

theorem payloadOf_bare (payload rest : List UInt8) :
    payloadOf false payload.length (payload ++ rest) = some (payload, rest) := by
  rw [payloadOf]
  dsimp only
  rw [if_neg Bool.false_ne_true, if_neg (by rw [List.length_append]; omega), if_neg Bool.false_ne_true,
    List.drop_zero, Nat.zero_add, List.take_left, List.drop_left]

theorem payloadOf_masked {mask : List UInt8} (hmask : mask.length = 4) (payload rest : List UInt8) :
    payloadOf true payload.length (mask ++ applyMask mask payload ++ rest) = some (payload, rest) := by
  have hlength : (mask ++ applyMask mask payload).length = 4 + payload.length := by
    rw [List.length_append, hmask, length_applyMask]
  rw [payloadOf]
  dsimp only
  rw [if_pos rfl, if_neg (by rw [List.length_append, hlength]; omega), if_pos rfl,
    List.drop_left' hlength, List.append_assoc, List.drop_left' hmask, List.take_left' hmask,
    List.take_left' (length_applyMask mask payload), applyMask_applyMask]

/-- A frame is read, and what is behind it is left. -/
theorem parseFrame_of_isFrame {frame : HnsWebSocketFrame} {octets : List UInt8} {limit : ℕ}
    (h : IsFrame frame octets) (hlimit : frame.payload.length ≤ limit) (rest : List UInt8) :
    parseFrame limit (octets ++ rest) = .ok (some (frame, rest)) := by
  obtain ⟨fin, opcode, payload⟩ := frame
  have hfirst : ∀ fin : Bool, ∀ opcode < 16,
      (decide (UInt8.ofNat ((if fin then 0x80 else 0) + opcode) &&& 0x80 ≠ 0)) = fin ∧
        (UInt8.ofNat ((if fin then 0x80 else 0) + opcode) &&& 0x0f).toNat = opcode := by decide
  have hbare : ∀ marker < 128, (decide (UInt8.ofNat marker &&& 0x80 ≠ 0)) = false ∧
      (UInt8.ofNat marker &&& 0x7f).toNat = marker := by decide
  have hmasked : ∀ marker < 128, (decide (UInt8.ofNat (0x80 + marker) &&& 0x80 ≠ 0)) = true ∧
      (UInt8.ofNat (0x80 + marker) &&& 0x7f).toNat = marker := by decide
  cases h with
  | @bare marker octets hopcode hlength =>
    rw [List.cons_append, List.cons_append, parseFrame, (hbare marker hlength.lt).1,
      (hbare marker hlength.lt).2, List.append_assoc, lengthOf_of_isLength hlength]
    dsimp only
    rw [if_neg (not_lt.2 hlimit), payloadOf_bare, Option.map_some, (hfirst fin opcode hopcode).1,
      (hfirst fin opcode hopcode).2]
  | @masked marker octets mask hopcode hlength hmask =>
    rw [List.cons_append, List.cons_append, parseFrame, (hmasked marker hlength.lt).1,
      (hmasked marker hlength.lt).2, List.append_assoc, lengthOf_of_isLength hlength]
    dsimp only
    rw [if_neg (not_lt.2 hlimit), payloadOf_masked hmask, Option.map_some,
      (hfirst fin opcode hopcode).1, (hfirst fin opcode hopcode).2]

/-- What the client writes is a frame, of the low bits of its opcode. -/
theorem isFrame_encodeClientFrame {opcode : ℕ} {payload mask : List UInt8}
    (hopcode : opcode < 16) (hpayload : payload.length < 2 ^ 63) (hmask : mask.length = 4) :
    ∃ octets, encodeClientFrame opcode payload mask = .ok octets ∧
      IsFrame ⟨true, opcode, payload⟩ octets := by
  have hfirst : ∀ opcode < 16, 0x80 ||| (opcode &&& 0x0f) = 0x80 + opcode := by decide
  have hsecond : ∀ marker < 128, 0x80 ||| marker = 0x80 + marker := by decide
  refine ⟨_, if_pos hmask, ?_⟩
  rw [hfirst opcode hopcode, writeLength, if_pos rfl]
  split_ifs with hhere hshort
  · rw [hsecond _ (by omega)]
    exact .masked hopcode (.here hhere) hmask
  · exact .masked hopcode (.short (Nat.lt_succ_of_le hshort)) hmask
  · exact .masked hopcode (.long hpayload) hmask

/-! ## Frames that arrive in pieces -/

theorem lengthOf_append {marker n : ℕ} {rest rest' : List UInt8}
    (h : lengthOf marker rest = .ok (some (n, rest'))) (more : List UInt8) :
    rest'.length ≤ rest.length ∧ lengthOf marker (rest ++ more) = .ok (some (n, rest' ++ more)) := by
  rw [lengthOf] at h ⊢
  split_ifs at h with h126 hlen h127 hlen hbig
  · cases h
  · cases h
    rw [if_pos h126, if_neg (by rw [List.length_append]; omega),
      List.take_append_of_le_length (by omega), List.drop_append_of_le_length (by omega)]
    exact ⟨by rw [List.length_drop]; omega, rfl⟩
  · cases h
  · cases h
    rw [if_neg h126, if_pos h127, if_neg (by rw [List.length_append]; omega),
      List.take_append_of_le_length (by omega), if_neg hbig,
      List.drop_append_of_le_length (by omega)]
    exact ⟨by rw [List.length_drop]; omega, rfl⟩
  · cases h
    rw [if_neg h126, if_neg h127]
    exact ⟨Nat.le_refl _, rfl⟩

theorem lengthOf_append_of_error {marker : ℕ} {rest : List UInt8} {e : String}
    (h : lengthOf marker rest = .error e) (more : List UInt8) :
    lengthOf marker (rest ++ more) = .error e := by
  rw [lengthOf] at h ⊢
  split_ifs at h with h126 hlen h127 hlen hbig
  cases h
  rw [if_neg h126, if_pos h127, if_neg (by rw [List.length_append]; omega),
    List.take_append_of_le_length (by omega), if_pos hbig]

theorem payloadOf_append {masked : Bool} {n : ℕ} {rest rest' payload : List UInt8}
    (h : payloadOf masked n rest = some (payload, rest')) (more : List UInt8) :
    rest'.length ≤ rest.length ∧
      payloadOf masked n (rest ++ more) = some (payload, rest' ++ more) := by
  rw [payloadOf] at h ⊢
  dsimp only at h ⊢
  generalize (if masked = true then 4 else 0) = maskBytes at h ⊢
  by_cases hlen : rest.length < maskBytes + n
  · rw [if_pos hlen] at h
    cases h
  rw [if_neg hlen] at h
  obtain ⟨rfl, rfl⟩ := Prod.mk.inj (Option.some.inj h)
  have hdrop : ∀ n, n ≤ rest.length → (rest ++ more).drop n = rest.drop n ++ more := fun _ hn =>
    List.drop_append_of_le_length hn
  rw [if_neg (by rw [List.length_append]; omega), hdrop _ (by omega), hdrop _ (by omega),
    List.take_append_of_le_length (by omega),
    List.take_append_of_le_length (by rw [List.length_drop]; omega)]
  exact ⟨by rw [List.length_drop]; omega, rfl⟩

theorem parseFrame_append {limit : ℕ} {data rest : List UInt8} {frame : HnsWebSocketFrame}
    (h : parseFrame limit data = .ok (some (frame, rest))) (more : List UInt8) :
    rest.length < data.length ∧
      parseFrame limit (data ++ more) = .ok (some (frame, rest ++ more)) := by
  obtain _ | ⟨first, _ | ⟨second, data⟩⟩ := data
  · cases h
  · cases h
  rw [parseFrame] at h
  rw [List.cons_append, List.cons_append, parseFrame]
  cases hlength : lengthOf (second &&& 0x7f).toNat data with
  | error e =>
    rw [hlength] at h
    cases h
  | ok read =>
    rw [hlength] at h
    obtain _ | ⟨n, rest'⟩ := read
    · cases h
    obtain ⟨hle, happend⟩ := lengthOf_append hlength more
    rw [happend]
    dsimp only at h ⊢
    split_ifs at h with hlimit
    rw [if_neg hlimit]
    obtain ⟨⟨payload, rest''⟩, hpayload, hframe⟩ := Option.map_eq_some_iff.1 (Except.ok.inj h)
    obtain ⟨rfl, rfl⟩ := Prod.mk.inj hframe
    obtain ⟨hle', happend'⟩ := payloadOf_append hpayload more
    rw [happend']
    have hlt : rest''.length < data.length + 1 + 1 := by omega
    exact ⟨hlt, rfl⟩

theorem parseFrame_append_of_error {limit : ℕ} {data : List UInt8} {e : String}
    (h : parseFrame limit data = .error e) (more : List UInt8) :
    parseFrame limit (data ++ more) = .error e := by
  obtain _ | ⟨first, _ | ⟨second, data⟩⟩ := data
  · cases h
  · cases h
  rw [parseFrame] at h
  rw [List.cons_append, List.cons_append, parseFrame]
  cases hlength : lengthOf (second &&& 0x7f).toNat data with
  | error e' =>
    rw [hlength] at h
    rw [lengthOf_append_of_error hlength]
    exact h
  | ok read =>
    rw [hlength] at h
    obtain _ | ⟨n, rest'⟩ := read
    · cases h
    rw [(lengthOf_append hlength more).2]
    dsimp only at h ⊢
    split_ifs at h with hlimit
    rw [if_pos hlimit]
    exact h

/-- `parseAvailableFrames`: `onFrame` is called with each frame that is there, and what is behind
    them is kept, unless there is an exception. -/
def frameParser (maxPayloadBytes : ℕ) : FrontParser UInt8 HnsWebSocketFrame String where
  parse := parseFrame maxPayloadBytes
  length_lt h := (parseFrame_append h []).1
  some_append h more := (parseFrame_append h more).2
  error_append := parseFrame_append_of_error

end Hns.WebSocket
