import ShinySongTools.Core.Container
import ShinySongTools.Runtime.Retirement

/-!
# Callback→main routes

The route table, the receivers in the world, and the update driver of the main
thread with callbacks sending at any moment. A step makes at most one access
to a mailbox; records, route table and receivers are seen by the main thread
only, and what it does there is joined to the access before.

Plugins get at a receiver only to read it, and do not put one into the world
themselves. A value is sent as `Sent`, with the number of the `try_send` call,
so that equal values stay apart.
-/

namespace ShinySongTools.Runtime

variable {T : Type u} {V : T → Type v} {M : Type w}

/-- A double buffer. -/
structure Messages (M : Type w) where
  older : List M
  newer : List M

namespace Messages

def new : Messages M := ⟨[], []⟩

def held (m : Messages M) : List M := m.older ++ m.newer

def write (m : Messages M) (value : M) : Messages M := { m with newer := m.newer ++ [value] }

/-- The maintenance: what was older expires. -/
def update (m : Messages M) : Messages M := ⟨m.newer, []⟩

theorem held_write (m : Messages M) (value : M) : (m.write value).held = m.held ++ [value] := by
  simp [held, write]

theorem held_update (m : Messages M) : m.update.held <:+ m.held := by
  simp [held, update]

end Messages

inductive RouteDirection where
  | mainToCallback
  | callbackToMain
  deriving DecidableEq, Repr

inductive Semantics where
  | latest
  | bounded (N : Nat)
  | sharedLatest
  deriving DecidableEq, Repr

def Semantics.new : Semantics → Mailbox M
  | .latest => .latest .new
  | .bounded N => .bounded N .new
  | .sharedLatest => .shared .new

/-- The type of `Messages` in the world; shared routes deliver
`SharedEnvelope`s. -/
inductive Receiver (T : Type u) where
  | messages (payload : T)
  | envelopes (payload : T)
  deriving DecidableEq, Repr

/-- What the registration methods of `AppCtx` fill in, a direction and a
semantics each. -/
structure RouteRegistration (T : Type u) where
  direction : RouteDirection
  payload : T
  semantics : Semantics
  deriving DecidableEq, Repr

structure RouteEntry (T : Type u) (M : Type w) where
  owner : Nat
  direction : RouteDirection
  receiver : Receiver T
  drain : Option (Mailbox M)

namespace RouteRegistration

def receiver (r : RouteRegistration T) : Receiver T :=
  match r.semantics with
  | .latest | .bounded _ => .messages r.payload
  | .sharedLatest => .envelopes r.payload

def drain (r : RouteRegistration T) : Option (Mailbox M) :=
  match r.direction with
  | .mainToCallback => none
  | .callbackToMain => some r.semantics.new

def entry (r : RouteRegistration T) (owner : Nat) : RouteEntry T M :=
  ⟨owner, r.direction, r.receiver, r.drain⟩

end RouteRegistration

structure Sent (M : Type w) where
  call : Nat
  value : M

/-- One `try_send` and what it returned. -/
structure Send (M : Type w) where
  route : Nat
  sent : Sent M
  outcome : Except SlotBusy SendOutcome

/-- One write into a receiver, with the pass it was made in. -/
structure Delivery (T : Type u) (M : Type w) where
  receiver : Receiver T
  route : Nat
  sent : Sent M
  pass : Nat

def Send.stored (c : Send M) : Bool :=
  match c.outcome with
  | .ok outcome => outcome.isStored
  | .error _ => false

/-- What a send with this outcome drops. -/
def replacedBy (route : Nat) (m : Mailbox (Sent M)) :
    Except SlotBusy SendOutcome → List (Nat × Sent M)
  | .ok .replaced => m.held.map (route, ·)
  | _ => []

/-- Where the main thread is in `run_update`. -/
inductive MainPc where
  | outside
  /-- Before the depth of the next of these routes. -/
  | reading (drains owners : List Nat)
  /-- In `drain` of a route, with at most `left` turns to go. -/
  | draining (route left : Nat) (drains owners : List Nat)
  | updating (owners : List Nat)
  deriving DecidableEq, Repr

/-- Where `drain` goes on after a value: a bounded one has turns left. -/
def MainPc.afterValue (bounded : Bool) (route left : Nat) (drains owners : List Nat) : MainPc :=
  if bounded && decide (1 < left) then .draining route (left - 1) drains owners
  else .reading drains owners

structure DrainState (V : T → Type v) (M : Type w) where
  run : AppRun V
  /-- An id is a position. -/
  routes : List (RouteEntry T (Sent M))
  receivers : Receiver T → Option (Messages (Sent M))
  main : MainPc
  passes : Nat
  /-- How many sends there had been, and what the active routes held, when the
  stage of this pass began. -/
  stageEntry : Nat
  atEntry : List (Nat × Sent M)
  sends : List (Send M)
  /-- What a send replaced. -/
  overwritten : List (Nat × Sent M)
  delivered : List (Delivery T M)

inductive DrainAction (V : T → Type v) (M : Type w) where
  /-- A build, with the routes it registers. -/
  | addPlugin (plugin : Plugin V) (routes : List (RouteRegistration T))
  | runStartup
  | teardownAll
  /-- `run_update` to the start of its CommandDrain stage; `due` says which
  receivers the maintenance updates. -/
  | runUpdate (due : Receiver T → Bool)
  | commandDrain (contended : Bool)
  /-- The Update systems of the next owner. -/
  | updateOwner
  /-- A callback sends. -/
  | trySend (route : Nat) (value : M) (contended : Bool)
  | poison (route : Nat)

namespace DrainState

def init : DrainState V M :=
  { run := .init, routes := [], receivers := fun _ => none, main := .outside, passes := 0
    stageEntry := 0, atEntry := [], sends := [], overwritten := [], delivered := [] }

def isActive (s : DrainState V M) (owner : Nat) : Bool := s.run.app.isActive owner

def mailbox (s : DrainState V M) (i : Nat) : Option (Mailbox (Sent M)) :=
  s.routes[i]?.bind (·.drain)

/-- A callback→main route whose owner is active. -/
def activeRoute (s : DrainState V M) (i : Nat) : Bool :=
  match s.routes[i]? with
  | some e => e.direction = .callbackToMain && s.isActive e.owner && e.drain.isSome
  | none => false

/-- `RouteTable::active_drains`. -/
def activeDrains (s : DrainState V M) : List Nat :=
  (List.range s.routes.length).filter s.activeRoute

def heldOn (s : DrainState V M) (i : Nat) : List (Sent M) :=
  match s.mailbox i with
  | some m => m.held
  | none => []

def setMailbox (s : DrainState V M) (i : Nat) (m : Mailbox (Sent M)) : DrainState V M :=
  { s with routes := s.routes.modify i fun e => { e with drain := some m } }

variable [DecidableEq T]

/-- `register_route_dyn`. -/
def registerRoute (owner : Nat) (s : DrainState V M) (r : RouteRegistration T) : DrainState V M :=
  { s with
    receivers :=
      if r.direction = .callbackToMain ∧ s.receivers r.receiver = none then
        Function.update s.receivers r.receiver (some .new)
      else s.receivers
    routes := s.routes ++ [r.entry owner] }

/-- `messages.write`, if the world has the receiver. -/
def deliver (s : DrainState V M) (receiver : Receiver T) (i : Nat) (sent : Sent M) :
    DrainState V M :=
  match s.receivers receiver with
  | some messages =>
    { s with
      receivers := Function.update s.receivers receiver (some (messages.write sent))
      delivered := s.delivered ++ [⟨receiver, i, sent, s.passes⟩] }
  | none => s

/-- One turn of `drain`. The bounded one asks for the receiver first and goes
on to the watermark; the others take their value and are done. -/
def turn (s : DrainState V M) (i left : Nat) (drains owners : List Nat) (receiver : Receiver T)
    (m : Mailbox (Sent M)) (contended : Bool) : DrainState V M :=
  if m.isBounded && (s.receivers receiver).isNone then { s with main := .reading drains owners }
  else
    match m.take contended with
    | (none, m') => { s.setMailbox i m' with main := .reading drains owners }
    | (some sent, m') =>
      { (s.setMailbox i m').deliver receiver i sent with
        main := .afterValue m.isBounded i left drains owners }

/-- The loop of the stage over the drains. -/
def commandDrain (s : DrainState V M) (contended : Bool) : Option (DrainState V M) :=
  match s.main with
  | .reading [] owners => some { s with main := .updating owners }
  | .reading (i :: drains) owners =>
    match s.mailbox i with
    | some m =>
      let watermark := m.depth contended
      some { s with
        main :=
          if 0 < watermark then .draining i watermark drains owners
          else .reading drains owners }
    | none => none
  | .draining i left drains owners =>
    match s.routes[i]? with
    | some ⟨_, _, receiver, some m⟩ => some (s.turn i left drains owners receiver m contended)
    | _ => none
  | .outside | .updating _ => none

def trySend (s : DrainState V M) (i : Nat) (value : M) (contended : Bool) :
    Option (DrainState V M) :=
  match s.mailbox i with
  | some m =>
    let sent := ⟨s.sends.length, value⟩
    let (outcome, m') := m.trySend sent contended
    some { s.setMailbox i m' with
      sends := s.sends ++ [⟨i, sent, outcome⟩]
      overwritten := s.overwritten ++ replacedBy i m outcome }
  | none => none

/-- What the active routes hold. -/
def visible (s : DrainState V M) : List (Nat × Sent M) :=
  s.activeDrains.flatMap fun i => (s.heldOn i).map (i, ·)

def step (s : DrainState V M) : DrainAction V M → Option (DrainState V M)
  | .addPlugin plugin routes =>
    if s.main = .outside then
      (s.run.step (.addPlugin plugin)).map fun run =>
        routes.foldl (registerRoute s.run.app.records.length) { s with run }
    else none
  | .runStartup =>
    if s.main = .outside then (s.run.step .runStartup).map fun run => { s with run } else none
  | .teardownAll =>
    if s.main = .outside then (s.run.step .teardownAll).map fun run => { s with run } else none
  | .runUpdate due =>
    if s.main = .outside ∧ s.run.stage = .running then
      some { s with
        receivers := fun r => (s.receivers r).map fun m => if due r then m.update else m
        main := .reading s.activeDrains s.run.app.activeOwnerIds
        passes := s.passes + 1
        stageEntry := s.sends.length
        atEntry := s.visible }
    else none
  | .commandDrain contended => s.commandDrain contended
  | .updateOwner =>
    match s.main with
    | .updating (owner :: owners) =>
      some { s with
        run := { s.run with app := s.run.app.withOwner owner (Scope.runUpdate s.passes) }
        main := .updating owners }
    | .updating [] => some { s with main := .outside }
    | _ => none
  | .trySend i value contended => s.trySend i value contended
  | .poison i => (s.mailbox i).map fun m => s.setMailbox i m.poison

-- ---------------------------------------------------------------------------
-- Mailboxes by route
-- ---------------------------------------------------------------------------

section

omit [DecidableEq T]

variable {s : DrainState V M} {m m' : Mailbox (Sent M)}

theorem mailbox_eq_some : s.mailbox i = some m ↔ ∃ e, s.routes[i]? = some e ∧ e.drain = some m :=
  Option.bind_eq_some_iff

theorem heldOn_eq (hm : s.mailbox i = some m) : s.heldOn i = m.held := by
  simp only [heldOn, hm]

theorem heldOn_eq_nil (hm : s.mailbox i = none) : s.heldOn i = [] := by
  simp only [heldOn, hm]

theorem mailbox_setMailbox (hm : s.mailbox i = some m) (m' : Mailbox (Sent M)) (j : Nat) :
    (s.setMailbox i m').mailbox j = if j = i then some m' else s.mailbox j := by
  obtain ⟨e, he, -⟩ := mailbox_eq_some.mp hm
  by_cases hj : j = i
  · subst hj
    simp [mailbox, setMailbox, he]
  · simp [mailbox, setMailbox, hj, Ne.symm hj]

theorem heldOn_setMailbox (hm : s.mailbox i = some m) (m' : Mailbox (Sent M)) (j : Nat) :
    (s.setMailbox i m').heldOn j = if j = i then m'.held else s.heldOn j := by
  unfold heldOn
  rw [mailbox_setMailbox hm]
  by_cases hj : j = i <;> simp [hj]

theorem activeRoute_setMailbox (hm : s.mailbox i = some m) (m' : Mailbox (Sent M)) (j : Nat) :
    (s.setMailbox i m').activeRoute j = s.activeRoute j := by
  obtain ⟨e, he, hdrain⟩ := mailbox_eq_some.mp hm
  by_cases hj : j = i
  · subst hj
    simp [activeRoute, setMailbox, isActive, he, hdrain]
  · simp [activeRoute, setMailbox, isActive, Ne.symm hj]

end

-- ---------------------------------------------------------------------------
-- What a step does
-- ---------------------------------------------------------------------------

/-- Every callback→main route has its receiver in the world. -/
def Ready (s : DrainState V M) : Prop :=
  ∀ e ∈ s.routes, e.drain.isSome → (s.receivers e.receiver).isSome

inductive Stepped (s : DrainState V M) : DrainAction V M → DrainState V M → Prop
  | outside (run : AppRun V) : s.main = .outside → Stepped s a { s with run }
  | registered (run : AppRun V) (routes : List (RouteRegistration T)) : s.main = .outside →
      Stepped s (.addPlugin plugin routes) (routes.foldl (registerRoute owner) { s with run })
  | began : s.main = .outside →
      Stepped s (.runUpdate due) { s with
        receivers := fun r => (s.receivers r).map fun m => if due r then m.update else m
        main := .reading s.activeDrains s.run.app.activeOwnerIds
        passes := s.passes + 1
        stageEntry := s.sends.length
        atEntry := s.visible }
  | watermark : s.main = .reading (i :: drains) owners → s.mailbox i = some m →
      0 < m.depth contended →
      Stepped s (.commandDrain contended)
        { s with main := .draining i (m.depth contended) drains owners }
  | skipped : s.main = .reading (i :: drains) owners → s.mailbox i = some m →
      m.depth contended = 0 →
      Stepped s (.commandDrain contended) { s with main := .reading drains owners }
  | drained : s.main = .reading [] owners →
      Stepped s (.commandDrain contended) { s with main := .updating owners }
  | took : s.main = .draining i left drains owners → s.mailbox i = some m →
      m.Takes contended (some sent) m' → s.receivers receiver = some messages →
      Stepped s (.commandDrain contended) { s.setMailbox i m' with
        receivers := Function.update s.receivers receiver (some (messages.write sent))
        delivered := s.delivered ++ [⟨receiver, i, sent, s.passes⟩]
        main := .afterValue m.isBounded i left drains owners }
  | missed : s.main = .draining i left drains owners → s.mailbox i = some m →
      m.Takes contended none m' →
      Stepped s (.commandDrain contended)
        { s.setMailbox i m' with main := .reading drains owners }
  | updated : s.main = .updating (owner :: owners) →
      Stepped s .updateOwner { s with
        run := { s.run with app := s.run.app.withOwner owner (Scope.runUpdate s.passes) }
        main := .updating owners }
  | returned : s.main = .updating [] → Stepped s .updateOwner { s with main := .outside }
  | sent : s.mailbox i = some m →
      m.Sends ⟨s.sends.length, value⟩ (m.trySend ⟨s.sends.length, value⟩ contended).1 m' →
      Stepped s (.trySend i value contended) { s.setMailbox i m' with
        sends := s.sends ++ [⟨i, ⟨s.sends.length, value⟩,
          (m.trySend ⟨s.sends.length, value⟩ contended).1⟩]
        overwritten := s.overwritten ++
          replacedBy i m (m.trySend ⟨s.sends.length, value⟩ contended).1 }
  | poisoned : s.mailbox i = some m → Stepped s (.poison i) (s.setMailbox i m.poison)

variable {s s' : DrainState V M} {a : DrainAction V M}

theorem stepped_turn (h : Ready s) (hmain : s.main = .draining i left drains owners)
    (he : s.routes[i]? = some ⟨owner, direction, receiver, some m⟩) :
    Stepped s (.commandDrain contended) (s.turn i left drains owners receiver m contended) := by
  have hm : s.mailbox i = some m := mailbox_eq_some.mpr ⟨_, he, rfl⟩
  obtain ⟨messages, hreceiver⟩ :=
    Option.isSome_iff_exists.mp (h _ (List.mem_of_getElem? he) rfl)
  unfold turn
  simp only [hreceiver, Option.isNone_some, Bool.and_false, Bool.false_eq_true, if_false]
  have htake := m.takes_take contended
  split
  · next m' heq =>
    rw [heq] at htake
    exact .missed hmain hm htake
  · next sent m' heq =>
    rw [heq] at htake
    have hdeliver : (s.setMailbox i m').receivers receiver = some messages := hreceiver
    simp only [deliver, hdeliver]
    exact .took hmain hm htake hreceiver

theorem stepped (h : Ready s) (hs : s.step a = some s') : Stepped s a s' := by
  cases a with
  | addPlugin plugin routes =>
    simp only [step] at hs
    split at hs
    · next hmain =>
      obtain ⟨run, -, rfl⟩ := Option.map_eq_some_iff.mp hs
      exact .registered run routes hmain
    · cases hs
  | runStartup | teardownAll =>
    simp only [step] at hs
    split at hs
    · next hmain =>
      obtain ⟨run, -, rfl⟩ := Option.map_eq_some_iff.mp hs
      exact .outside run hmain
    · cases hs
  | runUpdate due =>
    simp only [step] at hs
    split at hs
    · next hmain =>
      cases hs
      exact .began hmain.1
    · cases hs
  | commandDrain contended =>
    simp only [step, commandDrain] at hs
    split at hs
    · next hmain =>
      cases hs
      exact .drained hmain
    · next i drains owners hmain =>
      split at hs
      · next m hm =>
        cases hs
        by_cases hdepth : 0 < m.depth contended
        · simp only [hdepth, if_true]
          exact .watermark hmain hm hdepth
        · simp only [hdepth, if_false]
          exact .skipped hmain hm (Nat.eq_zero_of_not_pos hdepth)
      · cases hs
    · next i left drains owners hmain =>
      split at hs
      · next he =>
        cases hs
        exact stepped_turn h hmain he
      · cases hs
    · cases hs
    · cases hs
  | updateOwner =>
    simp only [step] at hs
    split at hs
    · next hmain =>
      cases hs
      exact .updated hmain
    · next hmain =>
      cases hs
      exact .returned hmain
    · cases hs
  | trySend i value contended =>
    simp only [step, trySend] at hs
    split at hs
    · next m hm =>
      cases hs
      exact .sent hm (m.sends_trySend _ contended)
    · cases hs
  | poison i =>
    obtain ⟨m, hm, rfl⟩ := Option.map_eq_some_iff.mp hs
    exact .poisoned hm

end DrainState
end ShinySongTools.Runtime
