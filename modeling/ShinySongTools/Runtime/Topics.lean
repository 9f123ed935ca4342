import ShinySongTools.Core.MainDebug

/-!
# Main-domain topics over whole runs

A topic of the main domain from its registration on: the dispatch system
queues requests while the owner is active, the handler system runs once a
frame, a failed run is followed by the owner's retirement, and the dispatch
system collects the outbox.

The first run that finds a request initialises the handler's params, outside
any per-request boundary. When that unwinds no handler has run, and the
requests it had drained go down with it.
-/

namespace ShinySongTools

variable {V : Type u}

namespace DebugTopicChannel

variable {P : Type v} {O : Type w}

def retiredResponse (origin : DebugQueuedRequest V P → O) (request : DebugQueuedRequest V P) :
    DebugResponse V O :=
  ⟨request.id, .error ⟨.serverError .pluginUnavailable, "plugin retired; request not delivered"⟩,
    request.generation, origin request⟩

/-- `fail_pending_requests`, for one entry of the registry. -/
def failPending (origin : DebugQueuedRequest V P → O) (c : DebugTopicChannel V P O) :
    DebugTopicChannel V P O :=
  c.inbox.foldl (fun c request => c.answer (retiredResponse origin request)) { c with inbox := [] }

theorem foldl_answer_pending (f : DebugQueuedRequest V P → DebugResponse V O)
    (l : List (DebugQueuedRequest V P)) (c : DebugTopicChannel V P O) :
    (l.foldl (fun c q => c.answer (f q)) c).pending = c.pending - l.length := by
  induction l generalizing c with
  | nil => rfl
  | cons q l ih =>
    rw [List.foldl_cons, ih, List.length_cons]
    simp only [answer, leavePending]
    omega

theorem failPending_spec (origin : DebugQueuedRequest V P → O) (c : DebugTopicChannel V P O) :
    (c.failPending origin).inbox = [] ∧
      (c.failPending origin).outbox = c.outbox ++ c.inbox.map (retiredResponse origin) ∧
      (c.failPending origin).pending = c.pending - c.inbox.length := by
  obtain ⟨hin, hout⟩ := foldl_answer (retiredResponse origin) c.inbox { c with inbox := [] }
  exact ⟨hin, hout, foldl_answer_pending ..⟩

end DebugTopicChannel

namespace MainDebug

open Relay (Queued)

variable {Req Res : Type v}

inductive OwnerPhase where
  | active
  /-- The handler system's run has failed; the driver retires the owner next. -/
  | failed
  | retired
  deriving DecidableEq, Repr

structure State (V : Type u) (Req : Type v) where
  channel : Channel V Req
  /-- The handler's params have been initialised. -/
  ready : Bool
  phase : OwnerPhase
  accepted : List (Queued V Req)
  /-- What the dispatch system has collected. -/
  collected : List (DebugResponse V Nat)

def State.init : State V Req :=
  { channel := .empty, ready := false, phase := .active, accepted := [], collected := [] }

inductive Action (V : Type u) (Req Res : Type v) where
  | enqueue (id : V) (payload : Option Req) (generation : Nat)
  | run (handle : Queued V Req → Handling Res)
  /-- A run in which `SystemState::new` unwinds. -/
  | paramsPanic
  | retire
  | collect

def step (toValue : Res → Except String V) (s : State V Req) :
    Action V Req Res → Option (State V Req)
  | .enqueue id payload generation =>
    if s.phase = .active then
      match s.channel.enqueue ⟨s.accepted.length, id, payload, generation⟩ with
      | (.ok _, channel) =>
        some { s with
          channel
          accepted := s.accepted ++ [⟨s.accepted.length, id, payload, generation⟩] }
      | (.error _, _) => some s
    else none
  | .run handle =>
    if s.phase = .active then
      let (channel, failed) := MainDebug.run toValue handle s.channel
      some { s with
        channel
        ready := s.ready || !s.channel.inbox.isEmpty
        phase := if failed then .failed else .active }
    else none
  | .paramsPanic =>
    if s.phase = .active ∧ s.ready = false ∧ s.channel.inbox ≠ [] then
      some { s with channel := { s.channel with inbox := [] }, phase := .failed }
    else none
  | .retire =>
    some { s with channel := s.channel.failPending DebugQueuedRequest.serial, phase := .retired }
  | .collect =>
    some { s with
      channel := { s.channel with outbox := [] }, collected := s.collected ++ s.channel.outbox }

def State.responses (s : State V Req) : List (DebugResponse V Nat) :=
  s.collected ++ s.channel.outbox

/-- The accepted requests no response belongs to. -/
def State.unanswered (s : State V Req) : List (Queued V Req) :=
  s.accepted.filter fun queued => queued.serial ∉ s.responses.map DebugResponse.origin

/-- The response to `queued` and no other. -/
def State.AnsweredOnce (s : State V Req) (queued : Queued V Req) : Prop :=
  ∃ r, s.responses.filter (·.origin = queued.serial) = [r] ∧ Same queued r

structure Conserved (toValue : Res → Except String V) (s : State V Req) : Prop where
  pending : s.channel.pending = s.unanswered.length
  bounded : s.channel.pending ≤ debugMaxPending
  /-- A run answers a first part of the queue and gives the other back. -/
  run : ∀ handle s', step toValue s (.run handle) = some s' →
    ∃ done rest new, Batch toValue handle s.channel s'.channel (s'.phase = .failed) done rest new ∧
      s'.collected = s.collected ∧ s'.accepted = s.accepted
  /-- What a failed run has left over is answered by the retirement. -/
  settled : ∀ handle s' s'', step toValue s (.run handle) = some s' → s'.phase = .failed →
    step toValue s' (.retire : Action V Req Res) = some s'' →
    s''.channel.outbox = s'.channel.outbox ++
        s'.channel.inbox.map (DebugTopicChannel.retiredResponse DebugQueuedRequest.serial) ∧
      s''.channel.pending = 0 ∧ s''.accepted = s.accepted ∧
        ∀ queued ∈ s''.accepted, s''.AnsweredOnce queued

-- ---------------------------------------------------------------------------
-- The invariant
-- ---------------------------------------------------------------------------

/-- Requests are answered in the order they were accepted in. -/
structure Inv (s : State V Req) : Prop where
  serials : s.accepted.map DebugQueuedRequest.serial = List.range s.accepted.length
  answered : List.Forall₂ Same (s.accepted.take s.responses.length) s.responses
  inbox : s.channel.inbox = s.accepted.drop s.responses.length ∨
    s.phase ≠ .active ∧ s.channel.inbox = []
  pending : s.channel.pending + s.responses.length = s.accepted.length
  bounded : s.channel.pending ≤ debugMaxPending

theorem Inv.init : Inv (State.init : State V Req) :=
  ⟨rfl, .nil, .inl rfl, rfl, Nat.zero_le _⟩

theorem forall₂_origins {l : List (Queued V Req)} {rs : List (DebugResponse V Nat)}
    (h : List.Forall₂ Same l rs) :
    rs.map DebugResponse.origin = l.map DebugQueuedRequest.serial := by
  induction h with
  | nil => rfl
  | cons hsame _ ih => rw [List.map_cons, List.map_cons, ih, hsame.origin]

/-- Among responses in the order of the requests each request finds its own. -/
theorem forall₂_once {l : List (Queued V Req)} {rs : List (DebugResponse V Nat)}
    (h : List.Forall₂ Same l rs) (hnodup : (l.map DebugQueuedRequest.serial).Nodup)
    (hq : queued ∈ l) : ∃ r, rs.filter (·.origin = queued.serial) = [r] ∧ Same queued r := by
  induction h with
  | nil => cases hq
  | @cons a r l rs hsame hrest ih =>
    obtain ⟨hfresh, hnodup⟩ := List.nodup_cons.mp hnodup
    rw [← forall₂_origins hrest] at hfresh
    cases hq with
    | head =>
      refine ⟨r, ?_, hsame⟩
      rw [List.filter_cons_of_pos (by simpa using hsame.origin), List.cons.injEq]
      refine ⟨rfl, List.filter_eq_nil_iff.mpr fun r' hr' ho => hfresh ?_⟩
      rw [← of_decide_eq_true ho]
      exact List.mem_map_of_mem hr'
    | tail _ hq =>
      obtain ⟨r', hr', hsame'⟩ := ih hnodup hq
      refine ⟨r', ?_, hsame'⟩
      rw [List.filter_cons_of_neg, hr']
      rw [hsame.origin, decide_eq_true_iff]
      refine fun heq => hfresh ?_
      rw [forall₂_origins hrest, heq]
      exact List.mem_map_of_mem hq

theorem Inv.nodup (h : Inv s) : (s.accepted.map DebugQueuedRequest.serial).Nodup :=
  h.serials ▸ List.nodup_range

theorem Inv.unanswered_eq (h : Inv s) : s.unanswered = s.accepted.drop s.responses.length := by
  have horigins := forall₂_origins h.answered
  have hbefore : ∀ queued ∈ s.accepted.take s.responses.length,
      queued.serial ∈ s.responses.map DebugResponse.origin := fun queued hq =>
    horigins ▸ List.mem_map_of_mem hq
  have hafter : ∀ queued ∈ s.accepted.drop s.responses.length,
      queued.serial ∉ s.responses.map DebugResponse.origin := fun queued hq hmem => by
    have hdisjoint := List.disjoint_take_drop h.nodup (Nat.le_refl s.responses.length)
    rw [← List.map_take, ← List.map_drop, ← horigins] at hdisjoint
    exact hdisjoint hmem (List.mem_map_of_mem hq)
  calc s.unanswered
      = (s.accepted.take s.responses.length ++ s.accepted.drop s.responses.length).filter
          fun queued => queued.serial ∉ s.responses.map DebugResponse.origin := by
        rw [List.take_append_drop]
        rfl
    _ = s.accepted.drop s.responses.length := by
        rw [List.filter_append, List.filter_eq_nil_iff.mpr, List.nil_append,
          List.filter_eq_self.mpr]
        · exact fun queued hq => decide_eq_true (hafter queued hq)
        · exact fun queued hq hn => of_decide_eq_true hn (hbefore queued hq)

/-- The next requests in order are answered. -/
theorem Inv.extend {s s' : State V Req} (h : Inv s) (haccepted : s'.accepted = s.accepted)
    (hin : s.accepted.drop s.responses.length = done ++ rest) (hleft : s'.channel.inbox = rest)
    (hresponses : s'.responses = s.responses ++ new) (hsame : List.Forall₂ Same done new)
    (hpending : s.channel.pending = s'.channel.pending + new.length) : Inv s' := by
  have hlen : s'.responses.length = s.responses.length + done.length := by
    rw [hresponses, List.length_append, hsame.length_eq]
  have hdone : (s.accepted.drop s.responses.length).take done.length = done := by
    rw [hin, List.take_left]
  have hcount := h.pending
  refine ⟨by rw [haccepted]; exact h.serials, ?_, .inl ?_, ?_, ?_⟩
  · rw [hlen, haccepted, List.take_add, hdone, hresponses]
    exact List.rel_append h.answered hsame
  · rw [hleft, hlen, haccepted, ← List.drop_drop, hin, List.drop_left]
  · rw [hlen, haccepted, hsame.length_eq]
    omega
  · have hbounded := h.bounded
    omega

theorem Inv.enqueue (h : Inv s) (hactive : s.phase = .active)
    (hs : queued.serial = s.accepted.length)
    (hfull : ¬ debugMaxPending ≤ s.channel.pending) :
    Inv { s with
      channel := { s.channel with
        inbox := s.channel.inbox ++ [queued], pending := s.channel.pending + 1 }
      accepted := s.accepted ++ [queued] } := by
  have hcount := h.pending
  have hin := h.inbox.resolve_right fun hn => hn.1 hactive
  have hresponses : State.responses { s with
      channel := { s.channel with
        inbox := s.channel.inbox ++ [queued], pending := s.channel.pending + 1 }
      accepted := s.accepted ++ [queued] } = s.responses := rfl
  refine ⟨?_, ?_, .inl ?_, ?_, Nat.succ_le_of_lt (Nat.not_le.mp hfull)⟩
  · rw [List.map_append, h.serials, List.length_append, List.length_singleton,
      List.range_succ, ← hs]
    rfl
  · rw [hresponses, List.take_append_of_le_length (by omega)]
    exact h.answered
  · rw [hresponses, List.drop_append_of_le_length (by omega), ← hin]
  · rw [hresponses, List.length_append, List.length_singleton]
    dsimp only
    omega

/-- What a run of the handler system does in an orderly state. -/
theorem Inv.run (h : Inv s) {toValue : Res → Except String V}
    (hs : step toValue s (.run handle) = some s') :
    ∃ done rest new, Batch toValue handle s.channel s'.channel (s'.phase = .failed) done rest new ∧
      s'.collected = s.collected ∧ s'.accepted = s.accepted := by
  simp only [step] at hs
  split at hs
  case isFalse => cases hs
  case isTrue hactive =>
    have hin := h.inbox.resolve_right fun hn => hn.1 hactive
    have hcount := h.pending
    obtain ⟨done, rest, new, hbatch⟩ := run_batch toValue handle s.channel (by
      rw [hin, List.length_drop]
      omega)
    cases hs
    refine ⟨done, rest, new, ?_, rfl, rfl⟩
    cases hf : (MainDebug.run toValue handle s.channel).2
    · rw [hf] at hbatch
      simpa using hbatch
    · rw [hf] at hbatch
      simpa using hbatch

theorem Inv.ran (h : Inv s) {toValue : Res → Except String V}
    (hs : step toValue s (.run handle) = some s') : Inv s' ∧
      s'.channel.inbox = s'.accepted.drop s'.responses.length := by
  have hactive : s.phase = .active := by
    by_contra hn
    simp [step, hn] at hs
  obtain ⟨done, rest, new, hbatch, hcollected, haccepted⟩ := h.run hs
  have hin := h.inbox.resolve_right fun hn => hn.1 hactive
  have hresponses : s'.responses = s.responses ++ new := by
    simp only [State.responses, hcollected, hbatch.outbox, List.append_assoc]
  have hdrop := hin.symm.trans hbatch.inbox
  refine ⟨h.extend haccepted hdrop hbatch.left hresponses
    (hbatch.answers.imp fun _ _ ha => ha.toSame) hbatch.pending, ?_⟩
  rw [hbatch.left, haccepted, hresponses, List.length_append, ← List.drop_drop, hdrop,
    ← hbatch.answers.length_eq, List.drop_left]

theorem forall₂_retired (l : List (Queued V Req)) :
    List.Forall₂ Same l (l.map (DebugTopicChannel.retiredResponse DebugQueuedRequest.serial)) := by
  induction l with
  | nil => exact .nil
  | cons queued l ih => exact .cons ⟨rfl, rfl, rfl⟩ ih

/-- Retirement answers what is queued. -/
theorem Inv.retire (h : Inv s) {toValue : Res → Except String V}
    (hs : step toValue s (.retire : Action V Req Res) = some s') :
    Inv s' ∧ s'.accepted = s.accepted ∧ s'.channel.outbox = s.channel.outbox ++
      s.channel.inbox.map (DebugTopicChannel.retiredResponse DebugQueuedRequest.serial) ∧
      (s.channel.inbox = s.accepted.drop s.responses.length → s'.channel.pending = 0) := by
  obtain ⟨hempty, hout, hpending⟩ := s.channel.failPending_spec DebugQueuedRequest.serial
  cases hs
  refine ⟨?_, rfl, hout, fun hin => ?_⟩
  · have hresponses : State.responses { s with
        channel := s.channel.failPending DebugQueuedRequest.serial, phase := .retired } =
        s.responses ++
          s.channel.inbox.map (DebugTopicChannel.retiredResponse DebugQueuedRequest.serial) := by
      simp only [State.responses, hout, List.append_assoc]
    have hcount := h.pending
    rcases h.inbox with hin | ⟨-, hin⟩
    · refine h.extend rfl (hin.symm.trans (List.append_nil _).symm) hempty hresponses
        (forall₂_retired _) ?_
      have hlen := congrArg List.length hin
      rw [List.length_drop] at hlen
      rw [List.length_map]
      dsimp only
      omega
    · rw [hin, List.map_nil, List.append_nil] at hresponses
      rw [hin] at hpending
      refine ⟨h.serials, ?_, .inr ⟨nofun, hempty⟩, ?_, ?_⟩
      · rw [hresponses]
        exact h.answered
      · rw [hresponses, hpending]
        exact hcount
      · rw [hpending]
        exact h.bounded
  · have hcount := h.pending
    have hlen := congrArg List.length hin
    rw [List.length_drop] at hlen
    dsimp only
    omega

theorem Inv.step (h : Inv s) {toValue : Res → Except String V}
    (hs : MainDebug.step toValue s a = some s') : Inv s' := by
  cases a with
  | enqueue id payload generation =>
    simp only [MainDebug.step, DebugTopicChannel.enqueue] at hs
    split at hs
    case isFalse => cases hs
    case isTrue hactive =>
      by_cases hfull : debugMaxPending ≤ s.channel.pending
      · simp only [hfull, if_true] at hs
        cases hs
        exact h
      · simp only [hfull, if_false] at hs
        cases hs
        exact h.enqueue hactive rfl hfull
  | run handle => exact (h.ran hs).1
  | paramsPanic =>
    simp only [MainDebug.step] at hs
    split at hs
    · cases hs
      exact ⟨h.serials, h.answered, .inr ⟨nofun, rfl⟩, h.pending, h.bounded⟩
    · cases hs
  | retire => exact (h.retire hs).1
  | collect =>
    cases hs
    have hresponses : State.responses { s with
        channel := { s.channel with outbox := [] }
        collected := s.collected ++ s.channel.outbox } = s.responses := List.append_nil _
    refine ⟨h.serials, ?_, ?_, ?_, h.bounded⟩
    · rw [hresponses]
      exact h.answered
    · rw [hresponses]
      exact h.inbox
    · rw [hresponses]
      exact h.pending

theorem Inv.conserved (h : Inv s) (toValue : Res → Except String V) : Conserved toValue s where
  pending := by
    rw [h.unanswered_eq, List.length_drop]
    have hcount := h.pending
    omega
  bounded := h.bounded
  run _ _ hs := h.run hs
  settled handle s' s'' hrun hfailed hretire := by
    obtain ⟨hinv, hin⟩ := h.ran hrun
    obtain ⟨hinv', haccepted, hout, hzero⟩ := hinv.retire hretire
    obtain ⟨-, -, -, -, -, hsame⟩ := h.run hrun
    refine ⟨hout, hzero hin, haccepted.trans hsame, fun queued hq => ?_⟩
    have hanswered := hinv'.answered
    rw [List.take_of_length_le (by
      have hcount := hinv'.pending
      rw [hzero hin] at hcount
      omega)] at hanswered
    exact forall₂_once hanswered hinv'.nodup hq

theorem main_requests_conserved (toValue : Res → Except String V) (as : List (Action V Req Res)) :
    Machine.Always (MainDebug.step toValue) (Conserved toValue) .init as :=
  (Machine.Always.of_step (fun _ _ _ (h : Inv _) => h.step) Inv.init).mono fun _ h =>
    h.conserved toValue

end MainDebug
end ShinySongTools
