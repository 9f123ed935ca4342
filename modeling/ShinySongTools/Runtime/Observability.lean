import ShinySongTools.Core.Container
import ShinySongTools.Machine

/-!
# Compact events

The process-level queue of compact events, with any number of threads that
submit and the one worker that drains. A call of `try_emit` is one access to
the queue and, when that refuses the event, one to the counter; in between
everybody else may move. `returns` is what the calls have returned, in the
order in which they did.
-/

namespace ShinySongTools.Runtime.Observability

open Machine

-- ---------------------------------------------------------------------------
-- Events
-- ---------------------------------------------------------------------------

inductive CompactLevel where
  | info
  | warn
  | error
  deriving DecidableEq, Repr

structure CompactEvent where
  code : UInt16
  level : CompactLevel
  owner : UInt32
  site : UInt32
  arg0 : UInt64
  arg1 : UInt64
  deriving DecidableEq, Repr

def CompactEvent.new (code : UInt16) (level : CompactLevel) : CompactEvent :=
  ⟨code, level, 0, 0, 0, 0⟩

namespace CompactCodes

def schedFrameEntered : UInt16 := 1

def schedOriginalCalled : UInt16 := 2

def schedOriginalReturned : UInt16 := 3

def schedNoPublishedContext : UInt16 := 4

def schedGlobalFailure : UInt16 := 5

def schedThreadMismatch : UInt16 := 6

def ffiEntryPanicked : UInt16 := 7

def schedFrameDone : UInt16 := 8

end CompactCodes

open CompactCodes in
/-- The domain and the message of a code. -/
def codeCategory (code : UInt16) : String × String :=
  if code = schedFrameEntered then ("scheduler", "scheduler frame entered")
  else if code = schedOriginalCalled then ("hook", "original LateUpdate entered")
  else if code = schedOriginalReturned then ("hook", "original LateUpdate returned")
  else if code = schedFrameDone then ("scheduler", "scheduler frame done")
  else if code = schedNoPublishedContext then
    ("scheduler", "callback reached without published context")
  else if code = schedGlobalFailure then ("scheduler", "scheduler global failure published")
  else if code = schedThreadMismatch then ("scheduler", "scheduler thread identity mismatch")
  else if code = ffiEntryPanicked then ("runtime", "entry panicked; startup aborted")
  else ("runtime", "unclassified compact event")

/-- The tracing event a compact event becomes. -/
structure Record where
  target : String
  level : CompactLevel
  code : UInt16
  owner : UInt32
  site : UInt32
  arg0 : UInt64
  arg1 : UInt64
  domain : String
  message : String
  deriving DecidableEq, Repr

def emitCompactEvent (event : CompactEvent) : Record where
  target := "scsp.compact"
  level := event.level
  code := event.code
  owner := event.owner
  site := event.site
  arg0 := event.arg0
  arg1 := event.arg1
  domain := (codeCategory event.code).1
  message := (codeCategory event.code).2

-- ---------------------------------------------------------------------------
-- The queue and its parties
-- ---------------------------------------------------------------------------

structure CallbackObservability (N : Nat) where
  queue : BoundedQueue CompactEvent N
  dropped : UInt64

/-- Where the worker stands in `drain(256)`: `left` pops may still follow,
`drained` events have been recorded. -/
inductive Worker where
  | draining (left drained : Nat)
  | emitting (left drained : Nat) (event : CompactEvent)
  | sleeping
  deriving DecidableEq, Repr

structure Return where
  producer : Nat
  event : CompactEvent
  value : Bool
  deriving DecidableEq, Repr

structure State (N : Nat) where
  inner : CallbackObservability N
  /-- The event of a call that was refused and has not counted it yet. -/
  refused : Nat → Option CompactEvent
  worker : Worker
  returns : List Return
  records : List Record

inductive Action where
  | tryEmit (producer : Nat) (event : CompactEvent)
  | countDropped (producer : Nat)
  | drain
  deriving DecidableEq, Repr

def Action.isDrain : Action → Bool
  | .drain => true
  | .tryEmit _ _ | .countDropped _ => false

/-- How many events one call of `drain_available` takes at most. -/
def drainMax : Nat := 256

/-- `drain_available` has returned. -/
def Worker.next (drained : Nat) : Worker :=
  if drained = 0 then .sleeping else .draining drainMax 0

def Worker.held : Worker → List CompactEvent
  | .emitting _ _ event => [event]
  | .draining _ _ | .sleeping => []

variable {N : Nat}

namespace State

def init (N : Nat) : State N :=
  ⟨⟨.new, 0⟩, fun _ => none, .draining drainMax 0, [], []⟩

def tryEmit (s : State N) (producer : Nat) (event : CompactEvent) : State N :=
  match s.inner.queue.trySend event with
  | (outcome, queue) =>
    if outcome.isStored then
      { s with
        inner := { s.inner with queue }
        returns := s.returns ++ [⟨producer, event, true⟩] }
    else { s with refused := Function.update s.refused producer (some event) }

def countDropped (s : State N) (producer : Nat) (event : CompactEvent) : State N :=
  { s with
    inner := { s.inner with dropped := s.inner.dropped + 1 }
    refused := Function.update s.refused producer none
    returns := s.returns ++ [⟨producer, event, false⟩] }

def drain (s : State N) : State N :=
  match s.worker with
  | .draining 0 drained => { s with worker := .next drained }
  | .draining (left + 1) drained =>
    match s.inner.queue.tryRead with
    | (none, _) => { s with worker := .next drained }
    | (some event, queue) =>
      { s with inner := { s.inner with queue }, worker := .emitting left drained event }
  | .emitting left drained event =>
    { s with
      worker := .draining left (drained + 1)
      records := s.records ++ [emitCompactEvent event] }
  | .sleeping => { s with worker := .draining drainMax 0 }

def step (s : State N) : Action → Option (State N)
  | .tryEmit producer event =>
    if s.refused producer = none then some (s.tryEmit producer event) else none
  | .countDropped producer => (s.refused producer).map (s.countDropped producer)
  | .drain => some s.drain

end State

/-- The events whose calls returned `value`. -/
def returned (value : Bool) (returns : List Return) : List CompactEvent :=
  (returns.filter (·.value = value)).map (·.event)

/-- What has been accepted has been recorded, in the order in which it was, or
is still on its way; what has not been accepted is counted. -/
structure Conserved (s : State N) : Prop where
  accepted : ∃ done, returned true s.returns = done ++ s.worker.held ++ s.inner.queue.queue ∧
    s.records = done.map emitCompactEvent
  dropped : s.inner.dropped = UInt64.ofNat (returned false s.returns).length

/-- A batch that is not over has taken less than it may. -/
def Worker.InBatch : Worker → Prop
  | .draining left drained => left + drained = drainMax
  | .emitting left drained _ => left + drained + 1 = drainMax
  | .sleeping => True

-- ---------------------------------------------------------------------------
-- What a step does
-- ---------------------------------------------------------------------------

inductive Drained (s : State N) : State N → Prop where
  | batchOver (drained : Nat) (h : s.worker = .draining 0 drained) :
      Drained s { s with worker := .next drained }
  | empty (left drained : Nat) (h : s.worker = .draining (left + 1) drained)
      (hempty : s.inner.queue.queue = []) : Drained s { s with worker := .next drained }
  | pop (left drained : Nat) (event : CompactEvent) (queue : BoundedQueue CompactEvent N)
      (h : s.worker = .draining (left + 1) drained)
      (hqueue : s.inner.queue.queue = event :: queue.queue) :
      Drained s { s with
        inner := { s.inner with queue }
        worker := .emitting left drained event }
  | emit (left drained : Nat) (event : CompactEvent) (h : s.worker = .emitting left drained event) :
      Drained s { s with
        worker := .draining left (drained + 1)
        records := s.records ++ [emitCompactEvent event] }
  | wake (h : s.worker = .sleeping) : Drained s { s with worker := .draining drainMax 0 }

theorem tryRead_cases (q : BoundedQueue CompactEvent N) :
    (q.queue = [] ∧ q.tryRead.1 = none) ∨
      ∃ event rest, q.queue = event :: rest.queue ∧ q.tryRead = (some event, rest) := by
  rcases q with ⟨_ | ⟨event, rest⟩, hfits⟩
  · exact .inl ⟨rfl, rfl⟩
  · exact .inr ⟨event, ⟨rest, Nat.le_of_succ_le hfits⟩, rfl, rfl⟩

theorem drain_drained (s : State N) : Drained s s.drain := by
  rw [State.drain]
  split
  next drained h => exact .batchOver drained h
  next left drained h =>
    rcases tryRead_cases s.inner.queue with ⟨hempty, hread⟩ | ⟨event, rest, hqueue, hread⟩
    · split
      next => exact .empty left drained h hempty
      next hsome => cases hread.symm.trans (congrArg Prod.fst hsome)
    · rw [hread]
      exact .pop left drained event rest h hqueue
  next left drained event h => exact .emit left drained event h
  next h => exact .wake h

inductive Stepped (s : State N) : Action → State N → Prop where
  | accepted (producer : Nat) (event : CompactEvent) (queue : BoundedQueue CompactEvent N)
      (hqueue : queue.queue = s.inner.queue.queue ++ [event]) :
      Stepped s (.tryEmit producer event) { s with
        inner := { s.inner with queue }
        returns := s.returns ++ [⟨producer, event, true⟩] }
  | refused (producer : Nat) (event : CompactEvent) (hfull : s.inner.queue.queue.length = N) :
      Stepped s (.tryEmit producer event)
        { s with refused := Function.update s.refused producer (some event) }
  | counted (producer : Nat) (event : CompactEvent) (h : s.refused producer = some event) :
      Stepped s (.countDropped producer) (s.countDropped producer event)
  | drained {s' : State N} (h : Drained s s') : Stepped s .drain s'

variable {s s' : State N} {a : Action}

theorem tryEmit_stepped (s : State N) (producer : Nat) (event : CompactEvent) :
    Stepped s (.tryEmit producer event) (s.tryEmit producer event) := by
  rw [State.tryEmit, BoundedQueue.trySend]
  by_cases hfits : s.inner.queue.queue.length < N
  · rw [dif_pos hfits]
    exact .accepted producer event _ rfl
  · rw [dif_neg hfits]
    exact .refused producer event (Nat.le_antisymm s.inner.queue.fits (Nat.not_lt.mp hfits))

theorem step_stepped (hs : s.step a = some s') : Stepped s a s' := by
  cases a with
  | tryEmit producer event =>
    rw [State.step] at hs
    split at hs
    · cases hs
      exact tryEmit_stepped s producer event
    · cases hs
  | countDropped producer =>
    obtain ⟨event, h, rfl⟩ := Option.map_eq_some_iff.mp hs
    exact .counted producer event h
  | drain =>
    cases hs
    exact .drained (drain_drained s)

@[simp] theorem returned_concat (value : Bool) (returns : List Return) (r : Return) :
    returned value (returns ++ [r]) =
      returned value returns ++ if r.value = value then [r.event] else [] := by
  rw [returned, List.filter_append, List.map_append, ← returned]
  split <;> simp [*]

@[simp] theorem Worker.held_next (drained : Nat) : (Worker.next drained).held = [] := by
  rw [Worker.next]
  split <;> rfl

theorem Worker.inBatch_next (drained : Nat) : (Worker.next drained).InBatch := by
  rw [Worker.next]
  split
  · trivial
  · rfl

-- ---------------------------------------------------------------------------
-- Nothing is lost
-- ---------------------------------------------------------------------------

theorem Conserved.drained (h : Conserved s) (hs : Drained s s') : Conserved s' := by
  obtain ⟨⟨done, hdone, hrecords⟩, hdropped⟩ := h
  cases hs with
  | batchOver drained hworker | empty left drained hworker =>
    rw [hworker] at hdone
    exact ⟨⟨done, by rw [Worker.held_next]; exact hdone, hrecords⟩, hdropped⟩
  | pop left drained event queue hworker hqueue =>
    rw [hworker, hqueue] at hdone
    exact ⟨⟨done, by simpa [Worker.held] using hdone, hrecords⟩, hdropped⟩
  | emit left drained event hworker =>
    rw [hworker] at hdone
    exact ⟨⟨done ++ [event], by simpa [Worker.held] using hdone, by simp [hrecords]⟩, hdropped⟩
  | wake hworker =>
    rw [hworker] at hdone
    exact ⟨⟨done, hdone, hrecords⟩, hdropped⟩

theorem Conserved.step (h : Conserved s) (hs : s.step a = some s') : Conserved s' := by
  cases step_stepped hs with
  | accepted producer event queue hqueue =>
    obtain ⟨done, hdone, hrecords⟩ := h.accepted
    refine ⟨⟨done, ?_, hrecords⟩, by simpa using h.dropped⟩
    simp [hdone, hqueue]
  | refused producer event => exact ⟨h.accepted, h.dropped⟩
  | counted producer event =>
    refine ⟨by simpa [State.countDropped] using h.accepted, ?_⟩
    simp [State.countDropped, h.dropped, UInt64.ofNat_add]
  | drained hdrained => exact h.drained hdrained

/-- However the threads and the worker interleave, the records are the events
whose calls returned true, in that order, but for those still on their way; the
counter is the number of the calls that returned false. -/
theorem records_accepted_in_order (N : Nat) (actions : List Action) :
    Always State.step Conserved (.init N) actions :=
  Always.of_step (fun _ _ _ h hs => h.step hs) ⟨⟨[], rfl, rfl⟩, rfl⟩

-- ---------------------------------------------------------------------------
-- Nothing waits for ever
-- ---------------------------------------------------------------------------

structure Inv (s : State N) : Prop extends Conserved s where
  inBatch : s.worker.InBatch

theorem Inv.init (N : Nat) : Inv (.init N) := ⟨⟨⟨[], rfl, rfl⟩, rfl⟩, rfl⟩

theorem Inv.step (h : Inv s) (hs : s.step a = some s') : Inv s' := by
  refine ⟨h.toConserved.step hs, ?_⟩
  have hbatch := h.inBatch
  cases step_stepped hs with
  | accepted | refused | counted => exact hbatch
  | drained hdrained =>
    cases hdrained with
    | batchOver drained | empty left drained => exact Worker.inBatch_next drained
    | pop left drained event queue hworker =>
      rw [hworker] at hbatch
      exact (Nat.add_right_comm left drained 1).trans hbatch
    | emit left drained event hworker =>
      rw [hworker] at hbatch
      exact hbatch
    | wake => rfl

theorem returned_grows (value : Bool) (hs : s.step a = some s') :
    returned value s.returns <+: returned value s'.returns := by
  cases step_stepped hs with
  | accepted producer event => exact ⟨_, (returned_concat _ _ _).symm⟩
  | refused => exact List.prefix_rfl
  | counted producer event => exact ⟨_, (returned_concat _ _ _).symm⟩
  | drained hdrained => cases hdrained <;> exact List.prefix_rfl

/-- At most so many turns of the worker are left until `n` events have been
recorded: one that pops an event, one that emits it, one that starts a batch. -/
def turnsLeft (n : Nat) (s : State N) : Nat :=
  match s.worker with
  | .draining left _ => 3 * (n - s.records.length) + if left = 0 then 1 else 0
  | .emitting _ _ _ => 3 * (n - s.records.length) - 1
  | .sleeping => 3 * (n - s.records.length) + 1

theorem Inv.waiting (h : Inv s) : (returned true s.returns).length =
    s.records.length + s.worker.held.length + s.inner.queue.queue.length := by
  obtain ⟨done, hdone, hrecords⟩ := h.accepted
  rw [hdone, hrecords, List.length_append, List.length_append, List.length_map]

/-- At least `n` events have been accepted. -/
structure Waiting (n : Nat) (s : State N) : Prop extends Inv s where
  accepted_le : n ≤ (returned true s.returns).length

def Recorded (n : Nat) (s : State N) : Prop := n ≤ s.records.length

theorem Waiting.step {n : Nat} (h : Waiting n s) (hs : s.step a = some s') : Waiting n s' :=
  ⟨h.toInv.step hs, Nat.le_trans h.accepted_le (returned_grows true hs).length_le⟩

theorem Recorded.step {n : Nat} (h : Recorded n s) (hs : s.step a = some s') :
    Recorded n s' := by
  refine Nat.le_trans h ?_
  cases step_stepped hs with
  | accepted | refused | counted => exact Nat.le_refl _
  | drained hdrained =>
    cases hdrained with
    | emit left drained event => simp
    | batchOver | empty | pop | wake => exact Nat.le_refl _

theorem turnsLeft_drained {n : Nat} (h : Waiting n s) (hn : ¬ Recorded n s) (hs : Drained s s') :
    turnsLeft n s' + 1 ≤ turnsLeft n s := by
  have hshort : s.records.length < n := Nat.not_le.mp hn
  have haccepted := h.accepted_le
  have hwaiting := h.waiting
  have hbatch := h.inBatch
  cases hs with
  | batchOver drained hworker =>
    rw [hworker] at hbatch
    obtain rfl : drained = drainMax := by simpa [Worker.InBatch] using hbatch
    simp [turnsLeft, hworker, Worker.next, drainMax]
  | empty left drained hworker hempty =>
    simp only [hworker, Worker.held, hempty, List.length_nil] at hwaiting
    omega
  | pop left drained event queue hworker hqueue =>
    simp only [turnsLeft, hworker]
    split <;> omega
  | emit left drained event hworker =>
    simp only [turnsLeft, hworker, List.length_append, List.length_singleton]
    split <;> omega
  | wake hworker => simp [turnsLeft, hworker, drainMax]

theorem turnsLeft_step {n : Nat} (h : Waiting n s) (hs : s.step a = some s')
    (hn : ¬ Recorded n s) : turnsLeft n s' + (if a.isDrain then 1 else 0) ≤ turnsLeft n s := by
  cases step_stepped hs with
  | accepted | refused | counted => exact Nat.le_refl _
  | drained hdrained => exact turnsLeft_drained h hn hdrained

theorem Inv.turnsLeft_le (h : Inv s) : turnsLeft (returned true s.returns).length s ≤
    3 * s.inner.queue.queue.length + 2 := by
  have hwaiting := h.waiting
  rw [turnsLeft]
  split
  next hworker =>
    rw [hworker] at hwaiting
    simp only [Worker.held, List.length_nil] at hwaiting
    split <;> omega
  next hworker =>
    rw [hworker] at hwaiting
    simp only [Worker.held, List.length_singleton] at hwaiting
    omega
  next hworker =>
    rw [hworker] at hwaiting
    simp only [Worker.held, List.length_nil] at hwaiting
    omega

/-- An accepted event is recorded within three turns of the worker for each
event it waits behind, whatever the threads submit meanwhile. -/
theorem recorded_within {before after : List Action} {s t : State N}
    (hs : exec State.step (.init N) before = some s) (ht : exec State.step s after = some t)
    (hturns : 3 * s.inner.queue.queue.length + 3 ≤ after.countP Action.isDrain) :
    (returned true s.returns).map emitCompactEvent <+: t.records := by
  have hinv : Inv s := (Always.of_step (fun _ _ _ h hs => h.step hs) (Inv.init N)).exec hs
  have hwaiting : Waiting (returned true s.returns).length s := ⟨hinv, Nat.le_refl _⟩
  have hrecorded : Recorded (returned true s.returns).length t := by
    refine reaches_of_turns (fun u a u' => ?_) (fun u a u' => ?_) (fun u a u' => ?_) hwaiting ht
      (Nat.lt_of_le_of_lt hinv.turnsLeft_le hturns)
    · exact Waiting.step
    · exact Recorded.step
    · exact turnsLeft_step
  have hkept : Always State.step
      (fun u => returned true s.returns <+: returned true u.returns) s after :=
    Always.of_step (fun _ _ _ h hs => h.trans (returned_grows true hs)) List.prefix_rfl
  have hinv' : Inv t := (Always.of_step (fun _ _ _ h hs => h.step hs) hinv).exec ht
  obtain ⟨done, hdone, hrecords⟩ := hinv'.accepted
  rw [Recorded, hrecords, List.length_map] at hrecorded
  rw [hrecords]
  refine (List.prefix_of_prefix_length_le (hkept.exec ht) ?_ hrecorded).map _
  rw [hdone, List.append_assoc]
  exact List.prefix_append ..

def sampleSubmitted : List Action :=
  [.tryEmit 0 (.new CompactCodes.schedFrameEntered .info),
    .tryEmit 1 (.new CompactCodes.ffiEntryPanicked .error)]

/-- Of two events for a queue of one, the first is recorded and the second dropped. -/
theorem recorded_within_sample :
    ∃ s t : State 1, exec State.step (.init 1) sampleSubmitted = some s ∧
      exec State.step s (.countDropped 1 :: List.replicate 6 .drain) = some t ∧
      t.inner.dropped = 1 ∧ (returned true s.returns).map emitCompactEvent <+: t.records := by
  refine ⟨_, _, rfl, rfl, rfl, ?_⟩
  exact recorded_within (show exec State.step (.init 1) sampleSubmitted = _ from rfl)
    (show exec State.step _ (.countDropped 1 :: List.replicate 6 .drain) = _ from rfl) (by decide)

end ShinySongTools.Runtime.Observability
