import ErgoNode.Peers.Messages

/-!
# The outbound queue of a connection

Any task may queue a frame for a peer; the writer takes the frames and sends them. The bytes of a
frame are counted before it enters the queue, and subtracted after the writer took it. So the count
is never below the queue, and the bound on it bounds the queue. It may be above: then a frame of the
largest size is refused by an empty queue, and the connection is aborted.

The model interleaves the atomic operations of all tasks.
-/

namespace ErgoNode

open List

def maxQueuedFrames : ℕ := 64

/-- One frame of the largest size. -/
def maxQueuedBytes : ℕ := maxBodySize + headerSize

def Frame.wireBytes (frame : Frame) : ℕ :=
  if frame.body = [] then minHeaderSize else headerSize + frame.body.length

inductive DisconnectReason where
  | connectionClosed
  | writeFailed
  | outboundQueueFull
  | disconnected
deriving DecidableEq, Repr

inductive SendError where
  | channelClosed
  | queueFull
deriving DecidableEq, Repr

/-- A call of `enqueue`, between two of its atomic operations. -/
inductive EnqueueTask where
  /-- The connection was not aborted when the call began. -/
  | checked (frame : Frame)
  | counted (frame : Frame)
  /-- The connection is to be aborted. -/
  | refused (frame : Frame) (reason : DisconnectReason) (error : SendError)
  /-- The call has returned, and leaves these bytes in the count. -/
  | returned (bytes : ℕ) (result : Except SendError Unit)

/-- The bytes of a frame that is counted and not in the queue. -/
def EnqueueTask.bytes : EnqueueTask → ℕ
  | checked _ => 0
  | counted frame | refused frame .. => frame.wireBytes
  | returned bytes _ => bytes

/-- The bytes of a frame that may still enter the queue. -/
def EnqueueTask.entering : EnqueueTask → ℕ
  | counted frame => frame.wireBytes
  | _ => 0

inductive WriterTask where
  | idle
  | took (frame : Frame)
  | writing
  | stopping
  /-- The receiving end is dropped, and what is left in the queue with it. -/
  | gone
deriving DecidableEq

def WriterTask.bytes : WriterTask → ℕ
  | took frame => frame.wireBytes
  | _ => 0

/-- A connection with its tasks. The code has no list of accepted or taken frames, or of aborts. -/
structure PeerLink where
  queuedBytes : ℕ := 0
  reason : Option DisconnectReason := none
  queue : List Frame := []
  tasks : List EnqueueTask := []
  writer : WriterTask := .idle
  /-- The reason the reader loop ended with. -/
  ended : Option DisconnectReason := none
  accepted : List Frame := []
  taken : List Frame := []
  aborts : List DisconnectReason := []

inductive LinkEvent where
  | enqueue (frame : Frame)
  /-- The next operation of a call of `enqueue`. -/
  | proceed (task : ℕ)
  /-- The next operation of the writer, which fails if it is a write that fails. -/
  | write (succeeds : Bool)
  /-- The reader or the node itself ends the connection. -/
  | abort (reason : DisconnectReason)
  /-- The reader loop sees that the connection is aborted, and ends. -/
  | tearDown
  /-- The writer is cancelled, where it waits. -/
  | cancel

namespace PeerLink

def abort (s : PeerLink) (reason : DisconnectReason) : PeerLink :=
  { s with reason := s.reason.or (some reason), aborts := s.aborts ++ [reason] }

def setTask (s : PeerLink) (i : ℕ) (task : EnqueueTask) : PeerLink :=
  { s with tasks := s.tasks.set i task }

/-- One operation of `enqueue`. -/
def proceed (s : PeerLink) (i : ℕ) : EnqueueTask → PeerLink
  | .checked frame =>
    { s with queuedBytes := s.queuedBytes + frame.wireBytes }.setTask i
      (if maxQueuedBytes < s.queuedBytes + frame.wireBytes then
        .refused frame .outboundQueueFull .queueFull
      else .counted frame)
  | .counted frame =>
    if s.writer = .gone then s.setTask i (.refused frame .writeFailed .channelClosed)
    else if maxQueuedFrames ≤ s.queue.length then
      s.setTask i (.refused frame .outboundQueueFull .queueFull)
    else { s with queue := s.queue ++ [frame], accepted := s.accepted ++ [frame] }.setTask i
      (.returned 0 (.ok ()))
  | .refused frame reason error =>
    (s.abort reason).setTask i (.returned frame.wireBytes (.error error))
  | .returned .. => s

/-- One operation of the writer. -/
def write (s : PeerLink) (succeeds : Bool) : PeerLink :=
  match s.writer, s.queue with
  | .idle, frame :: queue =>
    { s with queue := queue, writer := .took frame, taken := s.taken ++ [frame] }
  | .took frame, _ => { s with queuedBytes := s.queuedBytes - frame.wireBytes, writer := .writing }
  | .writing, _ =>
    if succeeds then { s with writer := .idle }
    else { s.abort .writeFailed with writer := .stopping }
  | .stopping, _ => { s with writer := .gone }
  | _, _ => s

def step (s : PeerLink) : LinkEvent → PeerLink
  | .enqueue frame =>
    { s with tasks := s.tasks ++
        [if s.reason.isSome then .returned 0 (.error .channelClosed) else .checked frame] }
  | .proceed i => (s.tasks[i]?).elim s (s.proceed i)
  | .write succeeds => s.write succeeds
  | .abort reason => s.abort reason
  | .tearDown => { s with ended := s.ended.or s.reason }
  | .cancel =>
    if s.ended.isSome ∧ (s.writer = .idle ∨ s.writer = .writing) then { s with writer := .gone }
    else s

/-- A call of `enqueue` that nothing interrupts is accepted. -/
def Accepts (s : PeerLink) (frame : Frame) : Prop :=
  ([.enqueue frame, .proceed s.tasks.length, .proceed s.tasks.length].foldl step s).accepted =
    s.accepted ++ [frame]

/-- What holds in every state. -/
structure Accounted (s : PeerLink) : Prop where
  counter : s.queuedBytes = (s.queue.map Frame.wireBytes).sum +
    (s.tasks.map EnqueueTask.bytes).sum + s.writer.bytes
  bound : (s.queue.map Frame.wireBytes).sum + (s.tasks.map EnqueueTask.entering).sum ≤
    maxQueuedBytes
  order : s.accepted = s.taken ++ s.queue
  reason : s.reason = s.aborts.head?
  ended : ∀ reason, s.ended = some reason → s.reason = some reason

lemma entering_le (tasks : List EnqueueTask) :
    (tasks.map EnqueueTask.entering).sum ≤ (tasks.map EnqueueTask.bytes).sum := by
  induction tasks with
  | nil => rfl
  | cons task tasks ih =>
    rw [map_cons, sum_cons, map_cons, sum_cons]
    refine Nat.add_le_add ?_ ih
    cases task <;> simp [EnqueueTask.entering, EnqueueTask.bytes]

lemma sum_map_set {tasks : List EnqueueTask} {i : ℕ} {task : EnqueueTask}
    (h : tasks[i]? = some task) (f : EnqueueTask → ℕ) (task' : EnqueueTask) :
    ((tasks.set i task').map f).sum + f task = (tasks.map f).sum + f task' := by
  obtain ⟨hi, rfl⟩ := List.getElem?_eq_some_iff.1 h
  obtain ⟨before, after, htasks, -, hset⟩ := exists_of_set hi
  rw [hset]
  conv_rhs => rw [htasks]
  simp only [map_append, map_cons, sum_append, sum_cons]
  omega

namespace Accounted

variable {s : PeerLink} {i : ℕ} {task : EnqueueTask}

lemma abort (h : s.Accounted) (reason : DisconnectReason) : (s.abort reason).Accounted := by
  refine ⟨h.counter, h.bound, h.order, ?_, fun r hr => ?_⟩
  · simp [PeerLink.abort, h.reason, head?_append]
  · simp [PeerLink.abort, h.ended r hr]

lemma setWriter (h : s.Accounted) {writer : WriterTask}
    (hwriter : writer.bytes = s.writer.bytes) : { s with writer := writer }.Accounted :=
  ⟨h.counter.trans (congrArg _ hwriter.symm), h.bound, h.order, h.reason, h.ended⟩

/-- A call of `enqueue` goes on, with another count. -/
theorem setTask (h : s.Accounted) (htask : s.tasks[i]? = some task) {task' : EnqueueTask} (q : ℕ)
    (hbytes : q + task.bytes = s.queuedBytes + task'.bytes)
    (hentering : task'.entering ≤ task.entering ∨ q ≤ maxQueuedBytes) :
    ({ s with queuedBytes := q }.setTask i task').Accounted := by
  obtain ⟨hcounter, hbound, horder, hreason, hended⟩ := h
  have hsum := sum_map_set htask EnqueueTask.bytes task'
  have hsum' := sum_map_set htask EnqueueTask.entering task'
  have hle := entering_le (s.tasks.set i task')
  refine ⟨?_, ?_, horder, hreason, hended⟩ <;> dsimp only [PeerLink.setTask] <;> omega

lemma proceed (h : s.Accounted) (htask : s.tasks[i]? = some task) :
    (s.proceed i task).Accounted := by
  cases task with
  | checked frame =>
    rw [PeerLink.proceed]
    split
    · exact h.setTask htask _ rfl (.inl (Nat.zero_le _))
    next hroom => exact h.setTask htask _ rfl (.inr (Nat.not_lt.1 hroom))
  | counted frame =>
    rw [PeerLink.proceed]
    split_ifs
    · exact h.setTask htask s.queuedBytes rfl (.inl (Nat.zero_le _))
    · exact h.setTask htask s.queuedBytes rfl (.inl (Nat.zero_le _))
    · obtain ⟨hcounter, hbound, horder, hreason, hended⟩ := h
      have hsum := sum_map_set htask EnqueueTask.bytes (.returned 0 (.ok ()))
      have hsum' := sum_map_set htask EnqueueTask.entering (.returned 0 (.ok ()))
      refine ⟨?_, ?_, by simp [PeerLink.setTask, horder], hreason, hended⟩ <;>
        simp only [PeerLink.setTask, EnqueueTask.bytes, EnqueueTask.entering, map_append,
          sum_append, map_cons, map_nil, sum_singleton] at hsum hsum' ⊢ <;>
        omega
  | refused => exact (h.abort _).setTask htask s.queuedBytes rfl (.inl (Nat.zero_le _))
  | returned bytes result => exact h

lemma write (h : s.Accounted) (succeeds : Bool) : (s.write succeeds).Accounted := by
  unfold PeerLink.write
  split
  next frame queue hwriter hqueue =>
    obtain ⟨hcounter, hbound, horder, hreason, hended⟩ := h
    rw [hqueue] at hcounter hbound horder
    simp only [hwriter, WriterTask.bytes, map_cons, sum_cons] at hcounter hbound
    refine ⟨?_, ?_, by simp [horder], hreason, hended⟩ <;> dsimp only [WriterTask.bytes] <;> omega
  next frame hwriter =>
    have hcounter := h.counter
    rw [hwriter] at hcounter
    exact ⟨Nat.sub_eq_of_eq_add hcounter, h.bound, h.order, h.reason, h.ended⟩
  next hwriter =>
    split
    · exact h.setWriter (by rw [hwriter]; rfl)
    · exact (h.abort _).setWriter (by rw [PeerLink.abort, hwriter]; rfl)
  next hwriter => exact h.setWriter (by rw [hwriter]; rfl)
  next => exact h

lemma step (h : s.Accounted) (e : LinkEvent) : (s.step e).Accounted := by
  cases e with
  | enqueue frame =>
    obtain ⟨hcounter, hbound, horder, hreason, hended⟩ := h
    refine ⟨?_, ?_, horder, hreason, hended⟩ <;> dsimp only [PeerLink.step] <;> split <;>
      simpa [EnqueueTask.bytes, EnqueueTask.entering]
  | proceed i =>
    rw [PeerLink.step]
    cases htask : s.tasks[i]? with
    | none => exact h
    | some task => exact h.proceed htask
  | write succeeds => exact h.write succeeds
  | abort reason => exact h.abort reason
  | tearDown =>
    refine ⟨h.counter, h.bound, h.order, h.reason, fun r hr => ?_⟩
    rcases Option.or_eq_some_iff.1 hr with hr | hr
    · exact h.ended r hr
    · exact hr.2
  | cancel =>
    rw [PeerLink.step]
    split
    next hwait => exact h.setWriter (by rcases hwait.2 with hw | hw <;> rw [hw] <;> rfl)
    · exact h

lemma foldl (h : s.Accounted) (events : List LinkEvent) :
    (events.foldl PeerLink.step s).Accounted :=
  foldlRecOn events _ h fun _ hs e _ => hs.step e

end Accounted

lemma accepts_iff {s : PeerLink} {frame : Frame} (hbody : frame.body.length = maxBodySize)
    (hqueue : s.queue = []) (hreason : s.reason = none) (hwriter : s.writer ≠ .gone) :
    s.Accepts frame ↔ s.queuedBytes = 0 := by
  have hne : frame.body ≠ [] := by
    intro hempty
    rw [hempty] at hbody
    cases hbody
  have hbytes : frame.wireBytes = maxQueuedBytes := by
    rw [Frame.wireBytes, if_neg hne, hbody, maxQueuedBytes, Nat.add_comm]
  by_cases hzero : s.queuedBytes = 0
  · simp [Accepts, step, proceed, setTask, hreason, hbytes, hzero, hwriter, hqueue, maxQueuedFrames]
  · have hfull : maxQueuedBytes < s.queuedBytes + maxQueuedBytes := by omega
    simp [Accepts, step, proceed, setTask, hreason, hbytes, hzero, hfull, abort]

/-- A run from the start of the connection. -/
def run (events : List LinkEvent) : PeerLink := events.foldl step {}

/-- **The outbound queue.** In every interleaving the queue is within its bound, the count does not
underflow, the writer takes the accepted frames in order, and the reason is that of the first abort.
A frame of the largest size is accepted by an empty queue exactly if no other frame is counted. -/
theorem run_accounted (events : List LinkEvent) :
    ((run events).queue.map Frame.wireBytes).sum ≤ maxQueuedBytes ∧
      (∀ frame, (run events).writer = .took frame → frame.wireBytes ≤ (run events).queuedBytes) ∧
      (run events).accepted = (run events).taken ++ (run events).queue ∧
      (run events).reason = (run events).aborts.head? ∧
      (∀ reason, (run events).ended = some reason → (run events).aborts.head? = some reason) ∧
      ∀ frame, frame.body.length = maxBodySize → (run events).queue = [] →
        (run events).reason = none → (run events).writer ≠ .gone →
          ((run events).Accepts frame ↔
            ((run events).tasks.map EnqueueTask.bytes).sum + (run events).writer.bytes = 0) := by
  have h : (run events).Accounted := Accounted.foldl ⟨rfl, by decide, rfl, rfl, by simp⟩ events
  refine ⟨(Nat.le_add_right _ _).trans h.bound, fun frame hwriter => ?_, h.order, h.reason,
    fun reason hended => h.reason ▸ h.ended reason hended, ?_⟩
  · rw [h.counter, hwriter]
    exact Nat.le_add_left _ _
  · intro frame hbody hqueue hreason hwriter
    rw [accepts_iff hbody hqueue hreason hwriter, h.counter, hqueue, map_nil, sum_nil, Nat.zero_add]

/-- The writer has taken the only frame and has not subtracted it yet. -/
theorem largest_refused : ∃ events frame, frame.body.length = maxBodySize ∧
    (run events).queue = [] ∧ (run events).reason = none ∧ (run events).writer ≠ .gone ∧
      ¬(run events).Accepts frame := by
  refine ⟨[.enqueue ⟨1, []⟩, .proceed 0, .proceed 0, .write true],
    ⟨2, replicate maxBodySize 0⟩, length_replicate, rfl, rfl, by decide, ?_⟩
  rw [accepts_iff length_replicate rfl rfl (by decide)]
  decide

end PeerLink

end ErgoNode
