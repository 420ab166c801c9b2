import Hns.Browser.Text
import Hns.Browser.WebSocketFrame
import Hns.Transport.Grammar

/-!
# What a WebSocket session receives

`HnsWebSocketTunnelOutput` cuts what the tunnel writes into the head of the response and the octets
of frames, and `NativeHnsWebSocketSession` puts the messages together again. However the octets are
cut into writes, what has been emitted depends on them as a whole only (`Received`), and a head
with status 101 and frames of RFC 6455 (`IsSequence`) are emitted as one open, the messages, and
one close (`events_of_writes`), unless the head is longer than what is kept of it.
-/

namespace Hns.WebSocket

open Octet Http11

/-! ## Texts -/

/-- What the platform makes of octets that are not UTF-8. -/
class Platform where
  replaced : List UInt8 → List Char

/-- `toString(Charsets.UTF_8)` -/
def toUtf8String [Platform] (octets : List UInt8) : List Char :=
  (fromUtf8 octets).getD (Platform.replaced octets)

def base64Char (n : ℕ) : Char :=
  (Chars.of "ABCDEFGHIJKLMNOPQRSTUVWXYZabcdefghijklmnopqrstuvwxyz0123456789+/").getD n '='

/-- `Base64.getEncoder().encodeToString` -/
def encodeToString : List UInt8 → List Char
  | [] => []
  | [a] => [base64Char (a.toNat / 4), base64Char (a.toNat % 4 * 16), '=', '=']
  | [a, b] =>
    [base64Char (a.toNat / 4), base64Char (a.toNat % 4 * 16 + b.toNat / 16),
      base64Char (b.toNat % 16 * 4), '=']
  | a :: b :: c :: rest =>
    base64Char (a.toNat / 4) :: base64Char (a.toNat % 4 * 16 + b.toNat / 16) ::
      base64Char (b.toNat % 16 * 4 + c.toNat / 64) :: base64Char (c.toNat % 64) ::
      encodeToString rest

/-- `toIntOrNull`, of a text in ISO 8859-1. -/
def toIntOrNull (text : List UInt8) : Option ℤ :=
  let (negative, digits) : Bool × List UInt8 :=
    match text with
    | 0x2d :: digits => (true, digits)
    | 0x2b :: digits => (false, digits)
    | digits => (false, digits)
  if digits ≠ [] ∧ digits.all fun digit => (toDigit 10 digit).isSome then
    let value : ℤ := if negative then -digitsValue 10 digits else digitsValue 10 digits
    if -2 ^ 31 ≤ value ∧ value < 2 ^ 31 then some value else none
  else none

/-! ## The head of the response -/

structure HandshakeResponse where
  status : ℤ
  headers : List (List UInt8 × List UInt8)

namespace HandshakeResponse

/-- The text between the first two blanks, or behind the only one. -/
def statusText (line : List UInt8) : Option (List UInt8) :=
  (splitOnce 0x20 line).map fun (_, rest) => rest.takeWhile (· ≠ 0x20)

def parse (bytes : List UInt8) : HandshakeResponse :=
  let lines := (splitLines bytes).filter (· ≠ [])
  { status := ((lines.head?.bind statusText).bind toIntOrNull).getD 0
    headers := lines.tail.filterMap fun line =>
      (splitOnce 0x3a line).bind fun (name, value) =>
        if name = [] then none else some (trimLatin1 name, trimLatin1 value) }

def header (response : HandshakeResponse) (name : List UInt8) : Option (List UInt8) :=
  (response.headers.find? fun header =>
    header.1.map toAsciiLowercase = name.map toAsciiLowercase).map Prod.snd

end HandshakeResponse

/-! ## The session -/

/-- The events for the page. -/
inductive SocketEvent
  | opened (protocol : List UInt8)
  | text (data : List Char)
  | binary (data : List Char)
  | error (reason : String)
  | close (code : ℕ) (reason : List Char) (wasClean : Bool)
  deriving DecidableEq

def closeNormal : ℕ := 1000

def closeAbnormal : ℕ := 1006

def closePayload (code : ℕ) (reason : List Char) : List UInt8 := toBE 2 code ++ utf8 reason

def closeCode (payload : List UInt8) : Option ℕ :=
  if payload.length < 2 then none else some (ofBE (payload.take 2))

def closeReason [Platform] (payload : List UInt8) : List Char :=
  if payload.length ≤ 2 then [] else toUtf8String (payload.drop 2)

/-- What a session gives to the executor: a frame to write, or to close. -/
inductive SocketTask
  | write (opcode : ℕ) (payload : List UInt8)
  | close (code : ℕ) (reason : List Char)
  deriving DecidableEq

/-- A session, with the events that it has emitted, and the tasks that it has given to the
    executor and that have not been run, in the order of their submission. -/
structure Session where
  finished : Bool
  opened : Bool
  continuationOpcode : Option ℕ
  continuationPayload : Option (List UInt8)
  events : List SocketEvent
  tasks : List SocketTask

namespace Session

def new : Session := ⟨false, false, none, none, [], []⟩

def emit (s : Session) (event : SocketEvent) : Session := { s with events := s.events ++ [event] }

def finishClose (s : Session) (code : ℕ) (reason : List Char) (wasClean : Bool) : Session :=
  if s.finished then s else { s with finished := true }.emit (.close code reason wasClean)

def fail (s : Session) (reason : String) : Session :=
  if s.finished then s
  else (s.emit (.error reason)).finishClose closeAbnormal reason.toList false

def writeFrame (s : Session) (opcode : ℕ) (payload : List UInt8) : Session :=
  if s.finished || !s.opened then s else { s with tasks := s.tasks ++ [.write opcode payload] }

def sendText (s : Session) (text : List Char) : Session := s.writeFrame opcodeText (utf8 text)

def sendBinary (s : Session) (bytes : List UInt8) : Session := s.writeFrame opcodeBinary bytes

def close (s : Session) (code : ℕ) (reason : List Char) : Session :=
  { s with tasks := s.tasks ++ [.close code reason] }

def handleHandshake (s : Session) (head : List UInt8) : Session :=
  let response := HandshakeResponse.parse head
  if response.status ≠ 101 then
    s.fail ("HNS WebSocket tunnel returned HTTP " ++ toString response.status)
  else
    { s with opened := true }.emit
      (.opened ((response.header (utf8 (Chars.of "Sec-WebSocket-Protocol"))).getD []))

def emitMessage [Platform] (s : Session) (opcode : ℕ) (payload : List UInt8) : Session :=
  s.emit (if opcode = opcodeText then .text (toUtf8String payload)
    else .binary (encodeToString payload))

def handleDataFrame [Platform] (s : Session) (frame : HnsWebSocketFrame) : Session :=
  if frame.fin then s.emitMessage frame.opcode frame.payload
  else
    { s with
      continuationOpcode := some frame.opcode
      continuationPayload := some frame.payload }

def handleContinuation [Platform] (s : Session) (frame : HnsWebSocketFrame) : Session :=
  match s.continuationOpcode, s.continuationPayload with
  | some opcode, some payload =>
    if frame.fin then
      { s with continuationOpcode := none, continuationPayload := none }.emitMessage opcode
        (payload ++ frame.payload)
    else { s with continuationPayload := some (payload ++ frame.payload) }
  | _, _ => s

/-- What `frameParser` calls with every frame. -/
def handleFrame [Platform] (s : Session) (frame : HnsWebSocketFrame) : Session :=
  if frame.opcode = opcodeText ∨ frame.opcode = opcodeBinary then s.handleDataFrame frame
  else if frame.opcode = opcodeContinuation then s.handleContinuation frame
  else if frame.opcode = opcodePing then s.writeFrame opcodePong frame.payload
  else if frame.opcode = opcodeClose then
    s.finishClose ((closeCode frame.payload).getD closeNormal) (closeReason frame.payload) true
  else s

end Session

/-! ## The output of the tunnel -/

def maxHandshakeBytes : ℕ := 64 * 1024

/-- The output that the tunnel writes to, with the buffer of the frame parser, and the session. -/
structure TunnelOutput where
  handshake : List UInt8
  handshakeComplete : Bool
  buffer : List UInt8
  session : Session

namespace TunnelOutput

def new : TunnelOutput := ⟨[], false, [], .new⟩

/-- The index of the first empty line. -/
def headerEnd : List UInt8 → Option ℕ
  | [] => none
  | byte :: bytes =>
    if (crlf ++ crlf).isPrefixOf (byte :: bytes) then some 0 else (headerEnd bytes).map (· + 1)

/-- `append` of the frame parser. -/
def onFrameBytes [Platform] (bytes : List UInt8) : EStateM String TunnelOutput Unit := fun t =>
  match (frameParser maxPayloadBytes).drain (t.buffer ++ bytes) with
  | (frames, .error e) =>
    .error e
      { t with buffer := t.buffer ++ bytes, session := frames.foldl Session.handleFrame t.session }
  | (frames, .ok rest) =>
    .ok () { t with buffer := rest, session := frames.foldl Session.handleFrame t.session }

def write [Platform] (bytes : List UInt8) : EStateM String TunnelOutput Unit := fun t =>
  if bytes = [] then .ok () t
  else if t.handshakeComplete then onFrameBytes bytes t
  else
    let t := { t with handshake := t.handshake ++ bytes }
    match headerEnd t.handshake with
    | none =>
      if maxHandshakeBytes < t.handshake.length then
        .ok () { t with session := t.session.fail "HNS WebSocket handshake response is too large" }
      else .ok () t
    | some headEnd =>
      let frameOffset := headEnd + 4
      let t := { t with
        handshakeComplete := true
        session := t.session.handleHandshake (t.handshake.take frameOffset) }
      if frameOffset < t.handshake.length then onFrameBytes (t.handshake.drop frameOffset) t
      else .ok () t

/-- Some writes, one after the other. -/
def writes [Platform] (chunks : List (List UInt8)) : EStateM String TunnelOutput Unit :=
  chunks.forM write

end TunnelOutput

/-! ## Sequences of frames -/

/-- A ping or a pong. -/
structure Control where
  ping : Bool
  payload : List UInt8

def Control.frame (control : Control) : HnsWebSocketFrame :=
  ⟨true, if control.ping then opcodePing else opcodePong, control.payload⟩

/-- Fragments in the middle of a message, each behind some control frames. -/
def middleFrames (fragments : List (List Control × List UInt8)) : List HnsWebSocketFrame :=
  fragments.flatMap fun (controls, payload) =>
    controls.map Control.frame ++ [⟨false, opcodeContinuation, payload⟩]

/-- Frames that a server may send before it closes, and the messages in them: whole messages, and
    messages in fragments (RFC 6455, section 5.4). The last one may be unfinished. -/
inductive IsSequence : List HnsWebSocketFrame → List (ℕ × List UInt8) → Prop
  | nil : IsSequence [] []
  | control {frames messages} (control : Control) (h : IsSequence frames messages) :
      IsSequence (control.frame :: frames) messages
  | whole {opcode payload frames messages} (hopcode : opcode = opcodeText ∨ opcode = opcodeBinary)
      (h : IsSequence frames messages) :
      IsSequence (⟨true, opcode, payload⟩ :: frames) ((opcode, payload) :: messages)
  | fragmented {opcode first last frames messages} (fragments : List (List Control × List UInt8))
      (controls : List Control) (hopcode : opcode = opcodeText ∨ opcode = opcodeBinary)
      (h : IsSequence frames messages) :
      IsSequence (⟨false, opcode, first⟩ :: (middleFrames fragments ++ controls.map Control.frame ++
          ⟨true, opcodeContinuation, last⟩ :: frames))
        ((opcode, first ++ fragments.flatMap Prod.snd ++ last) :: messages)
  | unfinished {opcode first} (fragments : List (List Control × List UInt8))
      (controls : List Control) (hopcode : opcode = opcodeText ∨ opcode = opcodeBinary) :
      IsSequence (⟨false, opcode, first⟩ :: (middleFrames fragments ++ controls.map Control.frame)) []

/-- The event for a message, of its opcode and payload. -/
def messageEvent [Platform] (message : ℕ × List UInt8) : SocketEvent :=
  if message.1 = opcodeText then .text (toUtf8String message.2)
  else .binary (encodeToString message.2)

namespace Session

variable [Platform] {s : Session}

theorem handleFrame_control (s : Session) (control : Control) :
    ∃ tasks, s.handleFrame control.frame = { s with tasks } := by
  obtain ⟨ping, payload⟩ := control
  cases ping with
  | false => exact ⟨s.tasks, rfl⟩
  | true =>
    change ∃ tasks, s.writeFrame opcodePong payload = { s with tasks }
    rw [writeFrame]
    split_ifs
    · exact ⟨s.tasks, rfl⟩
    · exact ⟨_, rfl⟩

theorem foldl_controls (s : Session) (controls : List Control) :
    ∃ tasks, (controls.map Control.frame).foldl handleFrame s = { s with tasks } := by
  induction controls generalizing s with
  | nil => exact ⟨s.tasks, rfl⟩
  | cons control controls ih =>
    obtain ⟨tasks, hfirst⟩ := handleFrame_control s control
    rw [List.map_cons, List.foldl_cons, hfirst]
    exact ih { s with tasks }

theorem handleFrame_continuation {opcode : ℕ} {payload : List UInt8} (fin : Bool)
    (more : List UInt8) (hopcode : s.continuationOpcode = some opcode)
    (hpayload : s.continuationPayload = some payload) :
    s.handleFrame ⟨fin, opcodeContinuation, more⟩ =
      if fin then
        { s with continuationOpcode := none, continuationPayload := none }.emitMessage opcode
          (payload ++ more)
      else { s with continuationPayload := some (payload ++ more) } := by
  have hdata : ¬(opcodeContinuation = opcodeText ∨ opcodeContinuation = opcodeBinary) := by decide
  rw [handleFrame, if_neg hdata, if_pos rfl, handleContinuation, hopcode, hpayload]

theorem handleFrame_data {opcode : ℕ} (hopcode : opcode = opcodeText ∨ opcode = opcodeBinary)
    (fin : Bool) (payload : List UInt8) :
    s.handleFrame ⟨fin, opcode, payload⟩ = s.handleDataFrame ⟨fin, opcode, payload⟩ := by
  rw [handleFrame, if_pos hopcode]

/-- A fragment is put behind what there is of the message. -/
theorem foldl_middleFrames {opcode : ℕ} {payload : List UInt8}
    (fragments : List (List Control × List UInt8)) (hopcode : s.continuationOpcode = some opcode)
    (hpayload : s.continuationPayload = some payload) :
    ∃ tasks, (middleFrames fragments).foldl handleFrame s =
      { s with
        tasks
        continuationPayload := some (payload ++ fragments.flatMap Prod.snd) } := by
  induction fragments generalizing s payload with
  | nil =>
    refine ⟨s.tasks, ?_⟩
    rw [List.flatMap_nil, List.append_nil, ← hpayload]
    rfl
  | cons fragment fragments ih =>
    obtain ⟨controls, more⟩ := fragment
    obtain ⟨tasks, hcontrols⟩ := foldl_controls s controls
    have hmore := handleFrame_continuation (s := { s with tasks }) false more hopcode hpayload
    rw [if_neg Bool.false_ne_true] at hmore
    rw [middleFrames, List.flatMap_cons, List.foldl_append, List.foldl_append, hcontrols,
      List.foldl_cons, List.foldl_nil, hmore, List.flatMap_cons, ← List.append_assoc]
    exact ih hopcode rfl

/-- A message that is not finished yet. -/
theorem foldl_fragments {opcode : ℕ} (hopcode : opcode = opcodeText ∨ opcode = opcodeBinary)
    (first : List UInt8) (fragments : List (List Control × List UInt8)) (controls : List Control) :
    ∃ tasks, (⟨false, opcode, first⟩ ::
        (middleFrames fragments ++ controls.map Control.frame)).foldl handleFrame s =
      { s with
        tasks
        continuationOpcode := some opcode
        continuationPayload := some (first ++ fragments.flatMap Prod.snd) } := by
  have hfirst : s.handleFrame ⟨false, opcode, first⟩ =
      { s with continuationOpcode := some opcode, continuationPayload := some first } := by
    rw [handleFrame_data hopcode]
    rfl
  obtain ⟨tasks, hmiddle⟩ := @foldl_middleFrames _
    { s with continuationOpcode := some opcode, continuationPayload := some first } opcode first
    fragments rfl rfl
  rw [List.foldl_cons, hfirst, List.foldl_append, hmiddle]
  obtain ⟨tasks', hcontrols⟩ := foldl_controls _ controls
  exact ⟨tasks', hcontrols⟩

/-- Every message is emitted, in its order. -/
theorem foldl_isSequence {frames : List HnsWebSocketFrame} {messages : List (ℕ × List UInt8)}
    (h : IsSequence frames messages) (hfinished : s.finished = false) :
    (frames.foldl handleFrame s).finished = false ∧
      (frames.foldl handleFrame s).events = s.events ++ messages.map messageEvent := by
  induction h generalizing s with
  | nil => exact ⟨hfinished, (List.append_nil _).symm⟩
  | control control _ ih =>
    obtain ⟨tasks, hfirst⟩ := handleFrame_control s control
    rw [List.foldl_cons, hfirst]
    exact ih hfinished
  | @whole opcode payload frames messages hopcode _ ih =>
    rw [List.foldl_cons, handleFrame_data hopcode]
    obtain ⟨hopen, hevents⟩ := @ih (s.emitMessage opcode payload) hfinished
    refine ⟨hopen, hevents.trans ?_⟩
    rw [List.map_cons, List.append_cons]
    rfl
  | @fragmented opcode first last frames messages fragments controls hopcode _ ih =>
    obtain ⟨tasks, hfragments⟩ := @foldl_fragments _ s _ hopcode first fragments controls
    rw [← List.cons_append, List.foldl_append, hfragments, List.foldl_cons,
      handleFrame_continuation true last rfl rfl, if_pos rfl]
    obtain ⟨hopen, hevents⟩ := @ih (Session.emitMessage { s with
      tasks
      continuationOpcode := none
      continuationPayload := none } opcode (first ++ fragments.flatMap Prod.snd ++ last)) hfinished
    refine ⟨hopen, hevents.trans ?_⟩
    rw [List.map_cons, List.append_cons]
    rfl
  | @unfinished opcode first fragments controls hopcode =>
    obtain ⟨tasks, hfragments⟩ := @foldl_fragments _ s _ hopcode first fragments controls
    rw [hfragments]
    exact ⟨hfinished, (List.append_nil _).symm⟩

end Session

/-! ## Writes -/

namespace TunnelOutput

theorem headerEnd_append {octets : List UInt8} {n : ℕ} (h : headerEnd octets = some n)
    (more : List UInt8) : headerEnd (octets ++ more) = some n ∧ n + 4 ≤ octets.length := by
  induction octets generalizing n with
  | nil => cases h
  | cons octet octets ih =>
    rw [headerEnd] at h
    rw [List.cons_append, headerEnd]
    split_ifs at h with hempty
    · cases h
      rw [List.isPrefixOf_iff_prefix] at hempty
      have hlonger : (crlf ++ crlf).isPrefixOf (octet :: (octets ++ more)) :=
        List.isPrefixOf_iff_prefix.2 (hempty.trans (List.prefix_append _ more))
      exact ⟨if_pos hlonger, hempty.length_le⟩
    · obtain ⟨m, hm, rfl⟩ := Option.map_eq_some_iff.1 h
      obtain ⟨happend, hle⟩ := ih hm
      have hlonger : ¬(crlf ++ crlf).isPrefixOf (octet :: (octets ++ more)) := by
        rw [List.isPrefixOf_iff_prefix] at hempty ⊢
        exact fun hprefix => hempty (List.prefix_of_prefix_length_le hprefix
          (List.prefix_append (octet :: octets) more) (Nat.le_trans (by decide : 4 ≤ 5)
            (Nat.succ_le_succ (Nat.le_trans (Nat.le_add_left 4 m) hle))))
      rw [if_neg hlonger, happend]
      exact ⟨rfl, Nat.succ_le_succ hle⟩

/-- An empty line ends where it is found. -/
theorem headerEnd_spec {octets : List UInt8} {n : ℕ} (h : headerEnd octets = some n) :
    crlf ++ crlf <:+ octets.take (n + 4) := by
  induction octets generalizing n with
  | nil => cases h
  | cons octet octets ih =>
    rw [headerEnd] at h
    split_ifs at h with hempty
    · cases h
      rw [List.isPrefixOf_iff_prefix, List.prefix_iff_eq_take] at hempty
      exact hempty ▸ List.suffix_rfl
    · obtain ⟨m, hm, rfl⟩ := Option.map_eq_some_iff.1 h
      exact (ih hm).trans (List.suffix_cons octet _)

theorem exists_headerEnd (front back : List UInt8) :
    ∃ n ≤ front.length, headerEnd (front ++ (crlf ++ crlf) ++ back) = some n := by
  induction front with
  | nil => exact ⟨0, Nat.le_refl _, rfl⟩
  | cons octet front ih =>
    obtain ⟨n, hle, hn⟩ := ih
    rw [List.cons_append, List.cons_append, headerEnd, hn]
    split_ifs
    · exact ⟨0, Nat.zero_le _, rfl⟩
    · exact ⟨n + 1, Nat.succ_le_succ hle, rfl⟩

/-- The first empty line is found. -/
theorem headerEnd_of_isFirst {head : List UInt8} (h : IsFirst (crlf ++ crlf) head)
    (back : List UInt8) : headerEnd (head ++ (crlf ++ crlf) ++ back) = some head.length := by
  obtain ⟨n, hle, hn⟩ := exists_headerEnd head back
  have hlength : (head ++ (crlf ++ crlf)).length = head.length + 4 := List.length_append
  have hprefix : (head ++ (crlf ++ crlf) ++ back).take (n + 4) <+: head ++ (crlf ++ crlf) :=
    List.prefix_of_prefix_length_le (List.take_prefix _ _) (List.prefix_append _ back)
      (by rw [List.length_take, hlength]; omega)
  have hsame := congrArg List.length (h _ hprefix (headerEnd_spec hn))
  rw [List.length_take, List.length_append, hlength] at hsame
  have hn' : n = head.length := by omega
  rw [hn, hn']

/-- No empty line is found before the head is all there. -/
theorem length_le_of_headerEnd {head octets more : List UInt8} (h : IsFirst (crlf ++ crlf) head)
    (happend : octets ++ more = head ++ (crlf ++ crlf)) {n : ℕ} (hn : headerEnd octets = some n) :
    more = [] := by
  have hwhole := headerEnd_of_isFirst h []
  obtain ⟨hsame, hle⟩ := headerEnd_append hn more
  rw [List.append_nil, ← happend, hsame] at hwhole
  have hlength := congrArg List.length happend
  rw [List.length_append, List.length_append, List.length_append] at hlength
  have hn' := Option.some.inj hwhole
  have htwo : crlf.length = 2 := rfl
  exact List.length_eq_zero_iff.1 (by omega)

/-- What the output has made of some octets, in whatever writes they came. -/
inductive Received [Platform] (octets : List UInt8) : TunnelOutput → Prop
  | head (hhead : headerEnd octets = none) : Received octets ⟨octets, false, [], .new⟩
  | frames {n : ℕ} {handshake rest : List UInt8} {frames : List HnsWebSocketFrame}
      (hhead : headerEnd octets = some n)
      (hdrain : (frameParser maxPayloadBytes).drain (octets.drop (n + 4)) = (frames, .ok rest)) :
      Received octets ⟨handshake, true, rest,
        frames.foldl Session.handleFrame (Session.new.handleHandshake (octets.take (n + 4)))⟩

/-- The octets are no head that is too long, and no frames that are refused. -/
structure IsAccepted (octets : List UInt8) : Prop where
  head : headerEnd octets = none → octets.length ≤ maxHandshakeBytes
  frames : ∀ n, headerEnd octets = some n → ∃ frames rest,
    (frameParser maxPayloadBytes).drain (octets.drop (n + 4)) = (frames, .ok rest)

variable [Platform]

/-- The octets behind the head. -/
theorem onFrameBytes_eq {bytes rest : List UInt8} {frames : List HnsWebSocketFrame}
    {t : TunnelOutput}
    (h : (frameParser maxPayloadBytes).drain (t.buffer ++ bytes) = (frames, .ok rest)) :
    onFrameBytes bytes t =
      .ok () { t with buffer := rest, session := frames.foldl Session.handleFrame t.session } := by
  rw [onFrameBytes, h]

theorem Received.write {octets bytes : List UInt8} {t : TunnelOutput} (h : Received octets t)
    (haccepted : IsAccepted (octets ++ bytes)) :
    ∃ t', write bytes t = .ok () t' ∧ Received (octets ++ bytes) t' := by
  by_cases hbytes : bytes = []
  · rw [TunnelOutput.write, if_pos hbytes, hbytes, List.append_nil]
    exact ⟨t, rfl, h⟩
  rw [TunnelOutput.write, if_neg hbytes]
  cases h with
  | head hhead =>
    rw [if_neg Bool.false_ne_true]
    dsimp only
    cases hwhole : headerEnd (octets ++ bytes) with
    | none =>
      dsimp only
      rw [if_neg (Nat.not_lt.2 (haccepted.head hwhole))]
      exact ⟨_, rfl, .head hwhole⟩
    | some n =>
      obtain ⟨frames, rest, hdrain⟩ := haccepted.frames n hwhole
      dsimp only
      split_ifs with hmore
      · exact ⟨_, onFrameBytes_eq hdrain, .frames hwhole hdrain⟩
      · -- The head is all there is.
        have hnil : (octets ++ bytes).drop (n + 4) = [] :=
          List.drop_eq_nil_of_le (Nat.le_of_not_lt hmore)
        have hempty : (frameParser maxPayloadBytes).drain ((octets ++ bytes).drop (n + 4)) =
            ([], .ok []) := by
          rw [hnil]
          exact FrontParser.drain_of_none rfl
        exact ⟨_, rfl, .frames hwhole hempty⟩
  | @frames n handshake rest frames hhead hdrain =>
    rw [if_pos rfl]
    obtain ⟨hwhole, hle⟩ := headerEnd_append hhead bytes
    obtain ⟨frames', rest', hdrain'⟩ := haccepted.frames n hwhole
    have hmore := FrontParser.drain_append hdrain bytes
    rw [← List.drop_append_of_le_length hle, hdrain', Prod.mk.injEq] at hmore
    have hbehind : (frameParser maxPayloadBytes).drain (rest ++ bytes) =
        (((frameParser maxPayloadBytes).drain (rest ++ bytes)).1, .ok rest') :=
      Prod.ext rfl hmore.2.symm
    refine ⟨_, onFrameBytes_eq hbehind, ?_⟩
    dsimp only
    rw [← List.foldl_append, ← hmore.1, ← List.take_append_of_le_length hle]
    exact .frames hwhole hdrain'

/-- The writes do not matter, only what is written. -/
theorem Received.writes {chunks : List (List UInt8)} {octets : List UInt8} {t : TunnelOutput}
    (h : Received octets t)
    (haccepted : ∀ front, front <+: chunks.flatten → IsAccepted (octets ++ front)) :
    ∃ t', writes chunks t = .ok () t' ∧ Received (octets ++ chunks.flatten) t' := by
  induction chunks generalizing octets t with
  | nil => exact ⟨t, rfl, (List.append_nil octets).symm ▸ h⟩
  | cons chunk chunks ih =>
    rw [List.flatten_cons] at haccepted ⊢
    obtain ⟨t₁, hwrite, hreceived⟩ := h.write (haccepted chunk (List.prefix_append _ _))
    obtain ⟨t', hwrites, hreceived'⟩ := ih hreceived fun front hfront => by
      rw [List.append_assoc]
      exact haccepted _ ((List.prefix_append_right_inj chunk).2 hfront)
    rw [List.append_assoc] at hreceived'
    exact ⟨t', (EStateM.forM_cons_ok hwrite).trans hwrites, hreceived'⟩

end TunnelOutput

/-! ## What is emitted -/

/-- The head of a response with status 101. -/
structure IsUpgrade (line : List UInt8) (fields : Http11.Headers) : Prop where
  statusLine : IsStatusLine line 101
  isField : ∀ field ∈ fields, IsField field

theorem IsUpgrade.isSection {line : List UInt8} {fields : Http11.Headers}
    (h : IsUpgrade line fields) : IsSection line fields :=
  ⟨h.statusLine.isLine, h.statusLine.ne_nil,
    fun field hfield => ⟨(h.isField field hfield).1, (h.isField field hfield).2.isLine⟩⟩

theorem ne_of_isSome_toDigit {octet other : UInt8} (h : (toDigit 10 octet).isSome)
    (hother : toDigit 10 other = none) : octet ≠ other := by
  rintro rfl
  rw [hother] at h
  cases h

theorem statusText_of_isStatusLine {line : List UInt8} {status : ℕ} (h : IsStatusLine line status) :
    ∃ digits, HandshakeResponse.statusText line = some digits ∧ digits.length = 3 ∧
      IsDigits 10 digits ∧ digitsValue 10 digits = status := by
  obtain ⟨major, minor, digits, reason, hversion, hlength, hdigits, hvalue, -, rfl⟩ := h
  have hblank : ∀ octet, (toDigit 10 octet).isSome → octet ≠ 0x20 := fun _ hoctet =>
    ne_of_isSome_toDigit hoctet rfl
  have hfront : 0x20 ∉ utf8 (Chars.of "HTTP/") ++ [major, 0x2e, minor] := by
    have hname : 0x20 ∉ utf8 (Chars.of "HTTP/") := by decide +kernel
    have hmajor := hblank major (hversion.2 major List.mem_cons_self)
    have hminor := hblank minor (hversion.2 minor (List.mem_cons_of_mem _ List.mem_cons_self))
    simp only [List.mem_append, List.mem_cons, List.not_mem_nil, or_false, not_or]
    exact ⟨hname, hmajor.symm, by decide, hminor.symm⟩
  refine ⟨digits, ?_, hlength, hdigits, hvalue⟩
  rw [HandshakeResponse.statusText, splitOnce_eq_some.2 ⟨hfront, rfl⟩, Option.map_some]
  dsimp only
  rw [List.takeWhile_append_of_pos fun octet hoctet => decide_eq_true (hblank octet (hdigits.2 octet hoctet)),
    List.takeWhile_cons_of_neg (by simp), List.append_nil]

theorem toIntOrNull_of_isDigits {digits : List UInt8} (hlength : digits.length = 3)
    (h : IsDigits 10 digits) : toIntOrNull digits = some (digitsValue 10 digits : ℤ) := by
  have hall : digits.all fun digit => (toDigit 10 digit).isSome := List.all_eq_true.2 h.2
  have hsmall : digitsValue 10 digits < 1000 := by
    obtain ⟨a, b, c, rfl⟩ := List.length_eq_three.1 hlength
    have hlt : ∀ octet : UInt8, (toDigit 10 octet).getD 0 < 10 := by
      intro octet
      rw [toDigit]
      split_ifs <;> simp only [Option.getD_some, Option.getD_none] <;> omega
    have ha := hlt a
    have hb := hlt b
    have hc := hlt c
    change ((0 * 10 + (toDigit 10 a).getD 0) * 10 + (toDigit 10 b).getD 0) * 10 +
      (toDigit 10 c).getD 0 < 1000
    omega
  have hrange : -2 ^ 31 ≤ (digitsValue 10 digits : ℤ) ∧ (digitsValue 10 digits : ℤ) < 2 ^ 31 := by
    omega
  have hpositive : ∀ octet ∈ digits, octet ≠ 0x2d ∧ octet ≠ 0x2b := fun octet hoctet =>
    ⟨ne_of_isSome_toDigit (h.2 octet hoctet) rfl, ne_of_isSome_toDigit (h.2 octet hoctet) rfl⟩
  rw [toIntOrNull]
  · dsimp only
    rw [if_pos ⟨h.1, hall⟩, if_neg Bool.false_ne_true, if_pos hrange]
  · rintro rest rfl
    exact (hpositive _ List.mem_cons_self).1 rfl
  · rintro rest rfl
    exact (hpositive _ List.mem_cons_self).2 rfl

/-- The status of a head. -/
theorem status_parse {line : List UInt8} {fields : Http11.Headers} {status : ℕ}
    (h : IsStatusLine line status) (hsection : IsSection line fields) :
    (HandshakeResponse.parse (headOctets line fields ++ (crlf ++ crlf))).status = status := by
  obtain ⟨digits, hdigits, hlength, hisDigits, rfl⟩ := statusText_of_isStatusLine h
  have hlines : (splitLines (headOctets line fields ++ (crlf ++ crlf))).filter (· ≠ []) =
      line :: fields.map WireHead.fieldLine := by
    have hsplit := splitLines_append_two (headOctets line fields) []
    rw [List.append_nil] at hsplit
    rw [hsplit, hsection.splitLines, List.filter_append, List.filter_eq_self.2 fun text htext =>
      decide_eq_true (hsection.isLine_of_mem text htext).2]
    exact List.append_nil _
  rw [HandshakeResponse.parse]
  dsimp only
  rw [hlines, List.head?_cons, Option.bind_some, hdigits, Option.bind_some,
    toIntOrNull_of_isDigits hlength hisDigits]
  rfl

/-- The frames of the close of the server, if it sends one. -/
def closeFrames (close : Option (Option (UInt16 × List Char))) : List HnsWebSocketFrame :=
  close.toList.map fun close =>
    ⟨true, opcodeClose, close.elim [] fun (code, reason) => closePayload code.toNat reason⟩

/-- The events for it. Without a code the close is a normal one. -/
def closeEvents (close : Option (Option (UInt16 × List Char))) : List SocketEvent :=
  close.toList.map fun close =>
    close.elim (.close closeNormal [] true) fun (code, reason) => .close code.toNat reason true

theorem closeCode_closePayload (code : UInt16) (reason : List Char) :
    closeCode (closePayload code.toNat reason) = some code.toNat := by
  have hlength : (toBE 2 code.toNat).length = 2 := length_toBE 2 code.toNat
  rw [closeCode, closePayload, if_neg (by rw [List.length_append, hlength]; omega),
    List.take_left' hlength, ofBE_toBE_of_lt code.toNat_lt]

section

variable [Platform]

theorem toUtf8String_utf8 (text : List Char) : toUtf8String (utf8 text) = text := by
  rw [toUtf8String, fromUtf8_utf8]
  rfl

theorem closeReason_closePayload (code : UInt16) (reason : List Char) :
    closeReason (closePayload code.toNat reason) = reason := by
  have hlength : (toBE 2 code.toNat).length = 2 := length_toBE 2 code.toNat
  rw [closeReason, closePayload, List.length_append, hlength, List.drop_left' hlength]
  split_ifs with hle
  · have hnil : utf8 reason = utf8 [] := List.length_eq_zero_iff.1 (by omega)
    exact Option.some.inj ((fromUtf8_utf8 []).symm.trans (hnil ▸ fromUtf8_utf8 reason))
  · exact toUtf8String_utf8 reason

theorem foldl_closeFrames {s : Session} (hfinished : s.finished = false)
    (close : Option (Option (UInt16 × List Char))) :
    ((closeFrames close).foldl Session.handleFrame s).events = s.events ++ closeEvents close := by
  have hclose : ∀ payload, s.handleFrame ⟨true, opcodeClose, payload⟩ =
      s.finishClose ((closeCode payload).getD closeNormal) (closeReason payload) true := fun _ => rfl
  obtain _ | _ | ⟨code, reason⟩ := close
  · exact (List.append_nil _).symm
  · change (s.handleFrame ⟨true, opcodeClose, []⟩).events = _
    rw [hclose, Session.finishClose, hfinished, if_neg Bool.false_ne_true]
    rfl
  · change (s.handleFrame ⟨true, opcodeClose, closePayload code.toNat reason⟩).events = _
    rw [hclose, closeCode_closePayload, closeReason_closePayload, Session.finishClose, hfinished,
      if_neg Bool.false_ne_true]
    rfl

omit [Platform] in
theorem forall₂_parse {frames : List HnsWebSocketFrame} {texts : List (List UInt8)}
    (htexts : List.Forall₂ IsFrame frames texts)
    (hlimit : ∀ frame ∈ frames, frame.payload.length ≤ maxPayloadBytes) :
    List.Forall₂ (fun frame text => ∀ rest,
      (frameParser maxPayloadBytes).parse (text ++ rest) = .ok (some (frame, rest))) frames texts := by
  induction htexts with
  | nil => exact .nil
  | cons hframe _ ih =>
    rw [List.forall_mem_cons] at hlimit
    exact .cons (parseFrame_of_isFrame hframe hlimit.1) (ih hlimit.2)

omit [Platform] in
/-- All that has been written of a head and frames is accepted. -/
theorem isAccepted_of_prefix {head text front : List UInt8} {frames : List HnsWebSocketFrame}
    (hfirst : IsFirst (crlf ++ crlf) head)
    (hhead : (head ++ (crlf ++ crlf)).length ≤ maxHandshakeBytes + 1)
    (hdrain : (frameParser maxPayloadBytes).drain text = (frames, .ok []))
    (h : front <+: head ++ (crlf ++ crlf) ++ text) : TunnelOutput.IsAccepted front := by
  obtain ⟨more, hmore⟩ := h
  constructor
  · intro hnone
    by_contra hlt
    have hlonger : head ++ (crlf ++ crlf) <+: front :=
      List.prefix_of_prefix_length_le (List.prefix_append _ text) ⟨more, hmore⟩ (by omega)
    obtain ⟨back, rfl⟩ := hlonger
    rw [TunnelOutput.headerEnd_of_isFirst hfirst] at hnone
    cases hnone
  · intro n hn
    obtain ⟨hwhole, hle⟩ := TunnelOutput.headerEnd_append hn more
    rw [hmore, TunnelOutput.headerEnd_of_isFirst hfirst] at hwhole
    obtain rfl := Option.some.inj hwhole
    have hdrop := congrArg (List.drop (head.length + 4)) hmore
    have hlength : (head ++ (crlf ++ crlf)).length = head.length + 4 := List.length_append
    rw [List.drop_append_of_le_length hle, List.drop_left' hlength] at hdrop
    exact FrontParser.exists_drain_of_append (hdrop ▸ hdrain)

omit [Platform] in
theorem handleHandshake_of_isUpgrade {line : List UInt8} {fields : Http11.Headers}
    (h : IsUpgrade line fields) (s : Session) :
    s.handleHandshake (headOctets line fields ++ (crlf ++ crlf)) =
      Session.emit { s with opened := true }
        (.opened (((HandshakeResponse.parse (headOctets line fields ++
          (crlf ++ crlf))).header (utf8 (Chars.of "Sec-WebSocket-Protocol"))).getD [])) := by
  have hstatus := status_parse h.statusLine h.isSection
  have hupgrade : ¬(HandshakeResponse.parse (headOctets line fields ++ (crlf ++ crlf))).status ≠ 101 :=
    not_not.2 hstatus
  rw [Session.handleHandshake, if_neg hupgrade]

/-- However the head of an upgrade and the frames behind it are cut into writes, what is emitted is
    one open, the messages, and a close if there is one. And a frame that the client writes is read
    as it has been written. -/
theorem events_of_writes {line : List UInt8} {fields : Http11.Headers}
    {frames : List HnsWebSocketFrame} {messages : List (ℕ × List UInt8)}
    {close : Option (Option (UInt16 × List Char))}
    {texts chunks : List (List UInt8)} (hupgrade : IsUpgrade line fields)
    (hhead : (headOctets line fields ++ (crlf ++ crlf)).length ≤ maxHandshakeBytes + 1)
    (hframes : IsSequence frames messages)
    (htexts : List.Forall₂ IsFrame (frames ++ closeFrames close) texts)
    (hlimit : ∀ frame ∈ frames ++ closeFrames close, frame.payload.length ≤ maxPayloadBytes)
    (hchunks : chunks.flatten = headOctets line fields ++ (crlf ++ crlf) ++ texts.flatten) :
    (∃ t, TunnelOutput.writes chunks .new = .ok () t ∧
      t.session.events = .opened (((HandshakeResponse.parse (headOctets line fields ++
        (crlf ++ crlf))).header (utf8 (Chars.of "Sec-WebSocket-Protocol"))).getD []) ::
          (messages.map messageEvent ++ closeEvents close)) ∧
    ∀ opcode < 16, ∀ payload : List UInt8, payload.length ≤ maxPayloadBytes →
      ∀ mask : List UInt8, mask.length = 4 → ∃ octets,
        encodeClientFrame opcode payload mask = .ok octets ∧
          (frameParser maxPayloadBytes).drain octets = ([⟨true, opcode, payload⟩], .ok []) := by
  constructor
  · have hfirst := hupgrade.isSection.isFirst
    have hdrain : (frameParser maxPayloadBytes).drain texts.flatten = _ :=
      FrontParser.drain_flatten rfl (forall₂_parse htexts hlimit)
    obtain ⟨t, hwrites, hreceived⟩ := @TunnelOutput.Received.writes _ chunks [] .new (.head rfl)
      fun front hfront => isAccepted_of_prefix hfirst hhead hdrain (hchunks ▸ hfront)
    refine ⟨t, hwrites, ?_⟩
    rw [List.nil_append, hchunks] at hreceived
    have hfound := TunnelOutput.headerEnd_of_isFirst hfirst texts.flatten
    have hlength : (headOctets line fields ++ (crlf ++ crlf)).length =
        (headOctets line fields).length + 4 := List.length_append
    cases hreceived with
    | head hnone =>
      rw [hfound] at hnone
      cases hnone
    | frames hhead' hdrain' =>
      obtain rfl := Option.some.inj (hfound.symm.trans hhead')
      rw [List.drop_left' hlength, hdrain, Prod.mk.injEq] at hdrain'
      rw [List.take_left' hlength, ← hdrain'.1, List.foldl_append,
        handleHandshake_of_isUpgrade hupgrade]
      obtain ⟨hfinished, hevents⟩ := @Session.foldl_isSequence _
        (Session.emit { Session.new with opened := true } (.opened _)) _ _ hframes rfl
      rw [foldl_closeFrames hfinished, hevents, List.append_assoc]
      rfl
  · intro opcode hopcode payload hpayload mask hmask
    obtain ⟨octets, hoctets, hframe⟩ := isFrame_encodeClientFrame hopcode
      (Nat.lt_of_le_of_lt hpayload (by decide)) hmask
    refine ⟨octets, hoctets, ?_⟩
    have hdrain : (frameParser maxPayloadBytes).drain [octets].flatten = _ :=
      FrontParser.drain_flatten rfl (.cons (parseFrame_of_isFrame hframe hpayload) .nil)
    rwa [List.flatten_singleton] at hdrain

end

/-! ## Heads that are too long -/

/-- A head that is longer than what is kept of it fails the session when it does not come in one
    write. -/
theorem emits_error_of_lt [Platform] {line : List UInt8} {fields : Http11.Headers}
    (h : IsUpgrade line fields) (hlong : maxHandshakeBytes < (headOctets line fields).length) :
    ∃ t, TunnelOutput.writes [headOctets line fields, crlf ++ crlf] .new = .ok () t ∧
      t.session.events.head? = some (.error "HNS WebSocket handshake response is too large") := by
  have hisFirst := h.isSection.isFirst
  have hfound := TunnelOutput.headerEnd_of_isFirst hisFirst []
  rw [List.append_nil] at hfound
  have hnone : TunnelOutput.headerEnd (headOctets line fields) = none := by
    cases hn : TunnelOutput.headerEnd (headOctets line fields) with
    | none => rfl
    | some n => exact absurd (TunnelOutput.length_le_of_headerEnd hisFirst rfl hn) (by decide)
  have hopened := fun s => handleHandshake_of_isUpgrade h s
  generalize headOctets line fields = head at *
  have hne : head ≠ [] := by
    rintro rfl
    exact absurd hlong (by decide)
  have hlength : (head ++ (crlf ++ crlf)).length = head.length + 4 := List.length_append
  let failed := Session.new.fail "HNS WebSocket handshake response is too large"
  have hfirst : TunnelOutput.write head .new = .ok () ⟨head, false, [], failed⟩ := by
    have hnew : TunnelOutput.new.handshake ++ head = head := List.nil_append head
    have hcomplete : ¬TunnelOutput.new.handshakeComplete = true := Bool.false_ne_true
    rw [TunnelOutput.write, if_neg hne, if_neg hcomplete]
    dsimp only
    rw [hnew, hnone]
    exact if_pos hlong
  have hsecond : TunnelOutput.write (crlf ++ crlf) ⟨head, false, [], failed⟩ =
      .ok () ⟨head ++ (crlf ++ crlf), true, [], failed.handleHandshake (head ++ (crlf ++ crlf))⟩ := by
    rw [TunnelOutput.write, if_neg (by decide), if_neg Bool.false_ne_true]
    dsimp only
    rw [hfound]
    dsimp only
    rw [if_neg (by omega), List.take_of_length_le (by omega)]
  refine ⟨_, (EStateM.forM_cons_ok hfirst).trans ((EStateM.forM_cons_ok hsecond).trans rfl), ?_⟩
  rw [hopened]
  rfl

namespace SocketSample

scoped instance : Platform := ⟨fun _ => []⟩

/-- A status line with a reason of some length. -/
def statusLine (length : ℕ) : List UInt8 :=
  utf8 (Chars.of "HTTP/") ++ [0x31, 0x2e, 0x31] ++
    0x20 :: ([0x31, 0x30, 0x31] ++ 0x20 :: List.replicate length 0x61)

theorem isUpgrade (length : ℕ) : IsUpgrade (statusLine length) [] where
  statusLine := by
    have hversion : ([0x31, 0x31] : List UInt8).all fun octet => (toDigit 10 octet).isSome := by
      decide
    have hstatus : ([0x31, 0x30, 0x31] : List UInt8).all fun octet => (toDigit 10 octet).isSome := by
      decide
    refine ⟨0x31, 0x31, [0x31, 0x30, 0x31], List.replicate length 0x61,
      ⟨nofun, List.all_eq_true.1 hversion⟩, rfl, ⟨nofun, List.all_eq_true.1 hstatus⟩, rfl,
      fun octet hoctet => ?_, rfl⟩
    rw [List.eq_of_mem_replicate hoctet]
    exact .inl rfl
  isField := nofun

/-- A frame without a mask, of a short payload. -/
def bare (frame : HnsWebSocketFrame) : List UInt8 :=
  UInt8.ofNat ((if frame.fin then 0x80 else 0) + frame.opcode) ::
    UInt8.ofNat frame.payload.length :: ([] ++ frame.payload)

/-- A text in two fragments, a ping between them, and a close. -/
def frames : List HnsWebSocketFrame :=
  [⟨false, opcodeText, [0x68]⟩, (Control.mk true []).frame, ⟨true, opcodeContinuation, [0x69]⟩]

theorem headOctets_statusLine (length : ℕ) : headOctets (statusLine length) [] = statusLine length :=
  List.append_nil _

theorem events_of_writes_fragments :
    ∃ t, TunnelOutput.writes [statusLine 2, crlf ++ crlf,
        ((frames ++ closeFrames (some none)).map bare).flatten] .new = .ok () t ∧
      t.session.events = .opened [] :: ([(opcodeText, [0x68, 0x69])].map messageEvent ++
        closeEvents (some none)) := by
  have hsequence : IsSequence frames [(opcodeText, [0x68, 0x69])] :=
    .fragmented [] [⟨true, []⟩] (.inl rfl) .nil
  have htexts : List.Forall₂ IsFrame (frames ++ closeFrames (some none))
      ((frames ++ closeFrames (some none)).map bare) :=
    .cons (.bare (by decide) (.here (by decide))) (.cons (.bare (by decide) (.here (by decide)))
      (.cons (.bare (by decide) (.here (by decide))) (.cons (.bare (by decide) (.here (by decide)))
        .nil)))
  have hhead : (headOctets (statusLine 2) [] ++ (crlf ++ crlf)).length ≤ maxHandshakeBytes + 1 := by
    decide +kernel
  have hprotocol : ((HandshakeResponse.parse (headOctets (statusLine 2) [] ++
      (crlf ++ crlf))).header (utf8 (Chars.of "Sec-WebSocket-Protocol"))).getD [] = [] := by
    decide +kernel
  have hchunks : [statusLine 2, crlf ++ crlf,
      ((frames ++ closeFrames (some none)).map bare).flatten].flatten =
        headOctets (statusLine 2) [] ++ (crlf ++ crlf) ++
          ((frames ++ closeFrames (some none)).map bare).flatten := by
    rw [headOctets_statusLine, List.append_assoc]
    simp only [List.flatten_cons, List.flatten_nil, List.append_nil]
  have hevents := (events_of_writes (isUpgrade 2) hhead hsequence htexts (by decide) hchunks).1
  rwa [hprotocol] at hevents

/-- A reason that is too long. -/
theorem emits_error_of_reason {length : ℕ} (h : maxHandshakeBytes < length) :
    ∃ t, TunnelOutput.writes [headOctets (statusLine length) [], crlf ++ crlf] .new = .ok () t ∧
      ∀ protocol, t.session.events ≠ [.opened protocol] := by
  have hlong : maxHandshakeBytes < (headOctets (statusLine length) []).length := by
    rw [headOctets_statusLine, statusLine]
    simp only [List.length_append, List.length_cons, List.length_replicate, List.length_nil]
    omega
  obtain ⟨t, hwrites, herror⟩ := emits_error_of_lt (isUpgrade length) hlong
  refine ⟨t, hwrites, fun protocol hevents => ?_⟩
  rw [hevents] at herror
  cases herror

theorem emits_error : IsUpgrade (statusLine 70000) [] ∧
    ∃ t, TunnelOutput.writes [headOctets (statusLine 70000) [], crlf ++ crlf] .new = .ok () t ∧
      ∀ protocol, t.session.events ≠ [.opened protocol] :=
  ⟨isUpgrade 70000, emits_error_of_reason (by decide)⟩

end SocketSample

end Hns.WebSocket
