import ShinySongTools.Histories
import ShinySongTools.Runtime.Ownership

/-!
# The history of the frames

A run's frames are told in one history: what each saw at its first steps, when
it took the App, the drivers it ran, its call of the original. Every occurrence
is lawful after the ones before it, and what holds of drivers over a whole run
is read off a lawful history.
-/

namespace ShinySongTools.Scheduler

open Histories

/-- What a frame did, by its sequence number. -/
inductive Occurrence where
  /-- `beneath` are the frames of the same thread it is nested in. -/
  | entered (seq thread : Nat) (this method : Addr) (beneath : List Nat)
  | loaded (seq : Nat) (failed : Bool)
  | checked (seq : Nat) (passed : Bool)
  | claimed (seq : Nat)
  | started (seq : Nat) (driver : Driver)
  | completed (seq : Nat) (driver : Driver)
  | unwound (seq : Nat) (holding : Bool)
  | opened (seq : Nat)
  | called (seq : Nat) (this method : Addr)
  | left (seq : Nat)
  deriving DecidableEq, Repr

namespace Occurrence

def seq : Occurrence → Nat
  | .entered n _ _ _ _ | .loaded n _ | .checked n _ | .claimed n | .started n _ | .completed n _
  | .unwound n _ | .opened n | .called n _ _ | .left n => n

def startsStartup : Occurrence → Bool
  | .started _ .startup => true
  | _ => false

def isCallOf (n : Nat) : Occurrence → Bool
  | .called m _ _ => m == n
  | _ => false

theorem seq_of_isCallOf (o : Occurrence) (h : o.isCallOf n = true) : o.seq = n := by
  cases o with
  | called m this method => exact beq_iff_eq.mp h
  | _ => cases h

end Occurrence

/-- What the newest frame of a thread does in its next step. -/
def SchedulerFrame.occurrence (trusted : Nat → Bool) (s : State) (t : Nat) (slot : AppSlot)
    (f : SchedulerFrame) (contended : Bool) : Option Occurrence :=
  match f.pc with
  | .loadFailed => some (.loaded f.seq s.failed)
  | .checkThread => some (.checked f.seq (trusted t))
  | .claim _ =>
    if (claimApp s slot f contended).2.2.app.isSome then some (.claimed f.seq) else none
  | .startDriver =>
    match f.app with
    | some app => some (.started f.seq (driverFor app))
    | none => some (.unwound f.seq false)
  | .inDriver driver => some (.completed f.seq driver)
  | .openGate => some (.opened f.seq)
  | .callOriginal _ => some (.called f.seq f.this f.method)
  | .drop => some (.left f.seq)
  | .commitFailed | .inOriginal _ | .commit | .unwound => none

def occurrence (trusted : Nat → Bool) (s : State) : Action → Option Occurrence
  | .publish | .poison | .fail => none
  | .runFrame t this method =>
    some (.entered s.frameSeq t this method ((s.threads t).stack.map (·.seq)))
  | .resume t contended =>
    (s.threads t).stack.head?.bind fun f => f.occurrence trusted s t (s.threads t).tls contended
  | .driverPanics t => (s.threads t).stack.head?.map fun f => .unwound f.seq f.app.isSome

structure Chronicle where
  state : State
  history : List Occurrence

def Chronicle.init : Chronicle := ⟨.init, []⟩

/-- A step of the frames, and its occurrence written down. -/
def chronicle (trusted : Nat → Bool) (c : Chronicle) (a : Action) : Option Chronicle :=
  (step trusted c.state a).map fun s => ⟨s, c.history ++ (occurrence trusted c.state a).toList⟩

/-- No App, no driver and no gate: all the frame does is to call its original,
once and with its own arguments. -/
structure PurePassthrough (h : List Occurrence) (seq : Nat) (this method : Addr) : Prop where
  claims : .claimed seq ∉ h
  drives : ∀ driver, .started seq driver ∉ h
  opens : .opened seq ∉ h
  calls : h.filter (·.isCallOf seq) <+: [.called seq this method]
  passes : .left seq ∈ h → .called seq this method ∈ h

structure Lifecycle (trusted : Nat → Bool) (h : List Occurrence) : Prop where
  startup : (h.filter (·.startsStartup)).length ≤ 1
  update : ∀ pre seq post, h = pre ++ .started seq .update :: post →
    ∃ o, .completed o .startup ∈ pre
  gate : ∀ pre seq post, h = pre ++ .opened seq :: post → .completed seq .startup ∈ pre ∧
    ∃ t this method beneath, .entered seq t this method beneath ∈ pre ∧ trusted t = true
  failed : ∀ seq driver, .loaded seq true ∈ h → .started seq driver ∉ h
  mismatched : ∀ seq driver, .checked seq false ∈ h → .started seq driver ∉ h
  nested : ∀ pre seq driver post, h = pre ++ .started seq driver :: post →
    ∀ t this method beneath, .entered seq t this method beneath ∈ h →
      ∀ o ∈ beneath, .claimed o ∉ pre
  unwound : ∀ pre o post, h = pre ++ .unwound o true :: post →
    ∀ seq t this method beneath, .entered seq t this method beneath ∈ post →
      PurePassthrough h seq this method

-- ---------------------------------------------------------------------------
-- Lawful histories
-- ---------------------------------------------------------------------------

/-- No frame has unwound with the App. -/
def NotLost (h : List Occurrence) : Prop := ∀ o, .unwound o true ∉ h

/-- What may happen after a history. -/
def allowed (trusted : Nat → Bool) (h : List Occurrence) : Occurrence → Prop
  | .entered seq _ _ _ _ => ∀ o ∈ h, o.seq < seq
  | .loaded seq _ | .checked seq _ => ∀ driver, .started seq driver ∉ h
  | .claimed _ => NotLost h
  | .started seq driver =>
    NotLost h ∧ .loaded seq true ∉ h ∧ .checked seq false ∉ h ∧
      (∃ t this method beneath, .entered seq t this method beneath ∈ h ∧
        ∀ o ∈ beneath, .claimed o ∉ h) ∧
      match driver with
      | .startup => ∀ o, .started o .startup ∉ h
      | .update => ∃ o, .completed o .startup ∈ h
  | .opened seq => .completed seq .startup ∈ h ∧
    ∃ t this method beneath, .entered seq t this method beneath ∈ h ∧ trusted t = true
  | .completed seq driver => .started seq driver ∈ h
  | .called seq this method => h.filter (·.isCallOf seq) = [] ∧
    ∃ t beneath, .entered seq t this method beneath ∈ h
  | .left seq => ∃ this method, .called seq this method ∈ h
  | .unwound _ _ => True

variable {trusted : Nat → Bool} {h pre post : List Occurrence}

/-- Nothing of a frame comes before its entry. -/
theorem after_entry
    (hl : Lawful (allowed trusted) (pre ++ .entered seq t this method beneath :: post))
    (ho : o ∈ pre ++ .entered seq t this method beneath :: post) (hseq : o.seq = seq) :
    o = .entered seq t this method beneath ∨ o ∈ post := by
  rcases List.mem_append.mp ho with hpre | htail
  · have hlt : o.seq < seq := hl pre _ post rfl o hpre
    exact absurd hseq hlt.ne
  · exact List.mem_cons.mp htail

/-- What is allowed of an occurrence that came after another one. -/
theorem allowed_after (hl : Lawful (allowed trusted) (pre ++ e :: post)) (ho : o ∈ post) :
    ∃ between, allowed trusted (pre ++ e :: between) o := by
  obtain ⟨between, rest, rfl⟩ := List.append_of_mem ho
  exact ⟨between, hl (pre ++ e :: between) o rest (by simp)⟩

theorem entered_unique (hl : Lawful (allowed trusted) h)
    (he : .entered seq t this method beneath ∈ h)
    (he' : .entered seq t' this' method' beneath' ∈ h) :
    t' = t ∧ this' = this ∧ method' = method ∧ beneath' = beneath := by
  obtain ⟨pre, post, rfl⟩ := List.append_of_mem he
  rcases after_entry hl he' rfl with heq | hpost
  · simpa using heq
  · obtain ⟨between, hallowed⟩ := allowed_after hl hpost
    have hlt : seq < seq := hallowed _ (List.mem_append_right _ List.mem_cons_self)
    exact absurd hlt (lt_irrefl seq)

theorem startup_le_one (hl : Lawful (allowed trusted) h) :
    (h.filter (·.startsStartup)).length ≤ 1 := by
  induction h using List.reverseRecOn with
  | nil => exact Nat.zero_le 1
  | append_singleton h o ih =>
    obtain ⟨hbefore, hallowed⟩ := lawful_concat.mp hl
    rw [List.filter_append]
    cases hs : o.startsStartup with
    | false => simpa [hs] using ih hbefore
    | true =>
      obtain ⟨seq, rfl⟩ : ∃ seq, o = .started seq .startup := by
        cases o with
        | started seq driver => cases driver with
          | startup => exact ⟨seq, rfl⟩
          | update => cases hs
        | _ => cases hs
      obtain ⟨-, -, -, -, hnone⟩ := hallowed
      have hempty : h.filter (·.startsStartup) = [] := by
        refine List.filter_eq_nil_iff.mpr fun o ho hstarts => ?_
        cases o with
        | started n driver => cases driver with
          | startup => exact hnone n ho
          | update => cases hstarts
        | _ => cases hstarts
      rw [hempty]
      simp [hs]

/-- A load or a check comes before the driver of its frame. -/
theorem not_started_of (hl : Lawful (allowed trusted) h) (ho : o ∈ h)
    (hlate : ∀ before, allowed trusted before o → .started seq driver ∉ before)
    (hearly : ∀ before, allowed trusted before (.started seq driver) → o ∉ before)
    (hne : o ≠ .started seq driver) : .started seq driver ∉ h := by
  intro hstarted
  obtain ⟨pre, post, rfl⟩ := List.append_of_mem hstarted
  rcases List.mem_append.mp ho with hpre | htail
  · exact hearly pre (hl pre _ post rfl) hpre
  · rcases List.mem_cons.mp htail with heq | hpost
    · exact hne heq
    · obtain ⟨between, hallowed⟩ := allowed_after hl hpost
      exact hlate _ hallowed (List.mem_append_right _ List.mem_cons_self)

theorem calls_prefix (hl : Lawful (allowed trusted) h)
    (he : .entered seq t this method beneath ∈ h) :
    h.filter (·.isCallOf seq) <+: [.called seq this method] := by
  induction h using List.reverseRecOn with
  | nil => cases he
  | append_singleton h o ih =>
    obtain ⟨hbefore, hallowed⟩ := lawful_concat.mp hl
    rw [List.filter_append]
    cases hc : o.isCallOf seq with
    | false =>
      rw [List.filter_cons_of_neg (by simp [hc]), List.filter_nil, List.append_nil]
      rcases List.mem_append.mp he with hin | hlast
      · exact ih hbefore hin
      · obtain rfl := List.mem_singleton.mp hlast
        have hnone : h.filter (·.isCallOf seq) = [] := by
          refine List.filter_eq_nil_iff.mpr fun c hmem hcall => ?_
          have hlt : c.seq < seq := hallowed c hmem
          exact absurd (c.seq_of_isCallOf hcall) hlt.ne
        rw [hnone]
        exact List.nil_prefix
    | true =>
      cases o with
      | called n this' method' =>
        obtain rfl := beq_iff_eq.mp hc
        obtain ⟨hnone, t', beneath', he'⟩ := hallowed
        obtain ⟨-, rfl, rfl, -⟩ := entered_unique hl he (List.mem_append_left _ he')
        rw [hnone]
        simp [hc]
      | _ => cases hc

theorem Lifecycle.of_lawful (hl : Lawful (allowed trusted) h) : Lifecycle trusted h where
  startup := startup_le_one hl
  update := by
    rintro pre seq post rfl
    obtain ⟨-, -, -, -, hcompleted⟩ := hl pre _ post rfl
    exact hcompleted
  gate := by
    rintro pre seq post rfl
    exact hl pre _ post rfl
  failed seq driver hloaded :=
    not_started_of hl hloaded (fun _ hb => hb driver) (fun _ hb => hb.2.1) (by simp)
  mismatched seq driver hchecked :=
    not_started_of hl hchecked (fun _ hb => hb driver) (fun _ hb => hb.2.2.1) (by simp)
  nested := by
    rintro pre seq driver post rfl t this method beneath he o ho
    obtain ⟨-, -, -, ⟨t', this', method', beneath', he', hfree⟩, -⟩ := hl pre _ post rfl
    obtain ⟨-, -, -, rfl⟩ := entered_unique hl he (List.mem_append_left _ he')
    exact hfree o ho
  unwound := by
    rintro pre o post rfl seq t this method beneath he
    obtain ⟨between, rest, rfl⟩ := List.append_of_mem he
    have hassoc :
        pre ++ .unwound o true :: (between ++ .entered seq t this method beneath :: rest) =
        (pre ++ .unwound o true :: between) ++ .entered seq t this method beneath :: rest := by simp
    rw [hassoc] at hl ⊢
    -- after its entry nothing of the frame is allowed that needs the App
    have hlost (e : Occurrence) (hseq : e.seq = seq) (hne : e ≠ .entered seq t this method beneath)
        (hneeds : ∀ before, allowed trusted before e → NotLost before) :
        e ∉ (pre ++ .unwound o true :: between) ++ .entered seq t this method beneath :: rest := by
      intro hmem
      have hrest := (after_entry hl hmem hseq).resolve_left hne
      obtain ⟨later, hallowed⟩ := allowed_after hl hrest
      exact hneeds _ hallowed o (by simp)
    have hdrives driver := hlost (.started seq driver) rfl (by simp) fun _ hb => hb.1
    refine ⟨hlost (.claimed seq) rfl (by simp) fun _ hb => hb, hdrives, fun hmem => ?_,
      calls_prefix hl (List.mem_append_right _ List.mem_cons_self), fun hleft => ?_⟩
    · obtain ⟨before, after, heq, hcompleted, -⟩ := hl.of_mem hmem
      have hin := heq ▸ List.mem_append_left (_ :: after) hcompleted
      obtain ⟨before, after, heq, hstarted⟩ := hl.of_mem hin
      exact hdrives .startup (heq ▸ List.mem_append_left _ hstarted)
    · obtain ⟨before, after, heq, this', method', hcalled⟩ := hl.of_mem hleft
      have hin : .called seq this' method' ∈
          (pre ++ .unwound o true :: between) ++ .entered seq t this method beneath :: rest := by
        rw [heq]
        exact List.mem_append_left _ hcalled
      obtain ⟨_, _, heq', -, t', beneath', he'⟩ := hl.of_mem hin
      obtain ⟨-, rfl, rfl, -⟩ := entered_unique hl (List.mem_append_right _ List.mem_cons_self)
        (heq' ▸ List.mem_append_left _ he')
      exact hin

-- ---------------------------------------------------------------------------
-- What a state says about its history
-- ---------------------------------------------------------------------------

/-- The frame has not come to the end of `claim_app`. -/
@[simp] def Pc.waiting : Pc → Bool
  | .loadFailed | .checkThread | .claim _ => true
  | _ => false

/-- A driver can still start in the frame. -/
@[simp] def Pc.mayStart : Pc → Bool
  | .loadFailed | .checkThread | .claim false | .startDriver => true
  | _ => false

/-- The thread predicate has passed and the driver's part of the frame is not over. -/
@[simp] def Pc.passed : Pc → Bool
  | .claim false | .startDriver | .inDriver _ | .openGate => true
  | _ => false

@[simp] def Pc.pastCall : Pc → Bool
  | .inOriginal _ | .commit | .drop => true
  | _ => false

/-- What is written about a frame on a stack. -/
structure Recorded (trusted : Nat → Bool) (failed : Bool) (h : List Occurrence) (t : Nat)
    (f : SchedulerFrame) (below : List SchedulerFrame) : Prop where
  entered : .entered f.seq t f.this f.method (below.map (·.seq)) ∈ h
  waiting : f.pc.waiting = true → f.app = none ∧ .claimed f.seq ∉ h
  unstarted : f.pc.mayStart = true →
    (∀ driver, .started f.seq driver ∉ h) ∧ .loaded f.seq true ∉ h ∧ .checked f.seq false ∉ h
  passed : f.pc.passed = true → trusted t = true
  driving : f.pc = .inDriver driver → .started f.seq driver ∈ h
  completed : f.pc = .openGate → .completed f.seq .startup ∈ h
  calls : h.filter (·.isCallOf f.seq) =
    if f.pc.pastCall then [.called f.seq f.this f.method] else []
  phase : f.pc.pastCall = false → f.phase = .beforeOriginal
  failing : f.pc = .claim true ∨ f.pc = .commitFailed → failed = true
  settled : .claimed f.seq ∈ h → f.app = none → failed = true ∨ f.pc = .drop

/-- The App is as the drivers that ran have left it. -/
def Kept (h : List Occurrence) (app : BoxedApp) : Prop :=
  NotLost h ∧
    if app.startupCompleted then ∃ o, .completed o .startup ∈ h
    else ∀ o, .started o .startup ∉ h

/-- What a frame that holds the App says about it. -/
def Pc.Holding (h : List Occurrence) (app : BoxedApp) : Pc → Prop
  | .inDriver .startup => NotLost h
  | .unwound | .callOriginal .recovery | .inOriginal .recovery | .drop => True
  | _ => Kept h app

/-- `g` is above `f` on a stack: a frame that has given the App back does not
let drivers run above it. -/
def Above (failed : Bool) (h : List Occurrence) (g f : SchedulerFrame) : Prop :=
  f.seq < g.seq ∧
    (.claimed f.seq ∈ h → f.app = none → failed = true ∧
      (g.pc.mayStart = true → g.pc = .loadFailed))

/-- `P` of every frame of a stack and of the frames below it. -/
def Stacked (P : SchedulerFrame → List SchedulerFrame → Prop) : List SchedulerFrame → Prop
  | [] => True
  | f :: below => P f below ∧ Stacked P below

structure Told (trusted : Nat → Bool) (c : Chronicle) : Prop where
  owner : Inv trusted (fun _ => true) c.state
  lawful : Lawful (allowed trusted) c.history
  fresh : ∀ o ∈ c.history, o.seq < c.state.frameSeq
  stacked : ∀ t, Stacked (Recorded trusted c.state.failed c.history t) (c.state.threads t).stack
  above : ∀ t, (c.state.threads t).stack.Pairwise (Above c.state.failed c.history)
  handoff : ∀ app, c.state.handoff.app = some app → Kept c.history app
  slots : ∀ t app, (c.state.threads t).tls.app = some app → Kept c.history app
  frames : ∀ t f app, f ∈ (c.state.threads t).stack → f.app = some app →
    f.pc.Holding c.history app
  vacant : c.state.published = false →
    NotLost c.history ∧ ∀ seq driver, .started seq driver ∉ c.history

-- ---------------------------------------------------------------------------
-- What stays
-- ---------------------------------------------------------------------------

theorem mem_concat_of_ne {o e : Occurrence} (hne : o.seq ≠ e.seq) : e ∈ h ++ [o] ↔ e ∈ h := by
  rw [List.mem_append, List.mem_singleton]
  exact or_iff_left fun heq => hne (congrArg Occurrence.seq heq).symm

theorem filter_concat_of_ne (hne : o.seq ≠ n) :
    (h ++ [o]).filter (·.isCallOf n) = h.filter (·.isCallOf n) := by
  have hnot : o.isCallOf n = false := by
    rw [Bool.eq_false_iff]
    exact fun hcall => hne (o.seq_of_isCallOf hcall)
  simp [List.filter_append, hnot]

/-- Another frame's occurrence changes nothing of what is written about a frame. -/
theorem Recorded.concat (hr : Recorded trusted failed h t f below) (hne : o.seq ≠ f.seq)
    (hmono : failed = true → failed' = true) : Recorded trusted failed' (h ++ [o]) t f below where
  entered := List.mem_append_left _ hr.entered
  waiting hpc := ⟨(hr.waiting hpc).1, fun hm => (hr.waiting hpc).2 ((mem_concat_of_ne hne).mp hm)⟩
  unstarted hpc := by
    obtain ⟨hstarted, hloaded, hchecked⟩ := hr.unstarted hpc
    exact ⟨fun driver hm => hstarted driver ((mem_concat_of_ne hne).mp hm),
      fun hm => hloaded ((mem_concat_of_ne hne).mp hm),
      fun hm => hchecked ((mem_concat_of_ne hne).mp hm)⟩
  passed := hr.passed
  driving hpc := List.mem_append_left _ (hr.driving hpc)
  completed hpc := List.mem_append_left _ (hr.completed hpc)
  calls := (filter_concat_of_ne hne).trans hr.calls
  phase := hr.phase
  failing hpc := hmono (hr.failing hpc)
  settled hm hnone := (hr.settled ((mem_concat_of_ne hne).mp hm) hnone).imp_left hmono

theorem Recorded.mono (hr : Recorded trusted failed h t f below)
    (hmono : failed = true → failed' = true) : Recorded trusted failed' h t f below :=
  { hr with
    failing := fun hpc => hmono (hr.failing hpc)
    settled := fun hm hnone => (hr.settled hm hnone).imp_left hmono }

theorem Above.concat (ha : Above failed h g f) (hne : o.seq ≠ f.seq)
    (hmono : failed = true → failed' = true) : Above failed' (h ++ [o]) g f :=
  ⟨ha.1, fun hm hnone => (ha.2 ((mem_concat_of_ne hne).mp hm) hnone).imp_left hmono⟩

theorem Above.mono (ha : Above failed h g f) (hmono : failed = true → failed' = true) :
    Above failed' h g f :=
  ⟨ha.1, fun hm hnone => (ha.2 hm hnone).imp_left hmono⟩

theorem Stacked.imp {P Q : SchedulerFrame → List SchedulerFrame → Prop}
    (hpq : ∀ f ∈ stack, ∀ below, P f below → Q f below) (h : Stacked P stack) :
    Stacked Q stack := by
  induction stack with
  | nil => trivial
  | cons f below ih =>
    exact ⟨hpq f List.mem_cons_self below h.1,
      ih (fun g hg => hpq g (List.mem_cons_of_mem f hg)) h.2⟩

theorem Stacked.of_mem {P : SchedulerFrame → List SchedulerFrame → Prop} (h : Stacked P stack)
    (hf : f ∈ stack) : ∃ below, P f below := by
  induction stack with
  | nil => cases hf
  | cons g below ih =>
    rcases List.mem_cons.mp hf with rfl | hf
    · exact ⟨below, h.1⟩
    · exact ih h.2 hf

/-- An occurrence after which an App that is not in its frame is as before. -/
def Occurrence.spares : Occurrence → Prop
  | .started _ .startup | .unwound _ true => False
  | _ => True

theorem Kept.concat (hk : Kept h app) (ho : o.spares) : Kept (h ++ [o]) app := by
  refine ⟨fun n hm => ?_, ?_⟩
  · rcases List.mem_append.mp hm with hin | hlast
    · exact hk.1 n hin
    · obtain rfl := List.mem_singleton.mp hlast
      exact ho
  · cases happ : app.startupCompleted with
    | true =>
      obtain ⟨n, hn⟩ : ∃ n, .completed n .startup ∈ h := by simpa [happ] using hk.2
      simpa using ⟨n, Or.inl hn⟩
    | false =>
      have hnone : ∀ n, .started n .startup ∉ h := by simpa [happ] using hk.2
      rw [if_neg Bool.false_ne_true]
      intro n hm
      rcases List.mem_append.mp hm with hin | hlast
      · exact hnone n hin
      · obtain rfl := List.mem_singleton.mp hlast
        exact ho

theorem Pc.Holding.concat {pc : Pc} (hk : pc.Holding h app) (ho : o.spares) :
    pc.Holding (h ++ [o]) app := by
  have hlost (hn : NotLost h) : NotLost (h ++ [o]) := by
    intro n hm
    rcases List.mem_append.mp hm with hin | hlast
    · exact hn n hin
    · obtain rfl := List.mem_singleton.mp hlast
      exact ho
  cases pc with
  | inDriver driver => cases driver with
    | startup => exact hlost hk
    | update => exact Kept.concat hk ho
  | callOriginal via | inOriginal via => cases via with
    | recovery => trivial
    | passthrough | driven => exact Kept.concat hk ho
  | unwound | drop => trivial
  | loadFailed | claim failed | commitFailed | checkThread | startDriver | openGate | commit =>
    exact Kept.concat hk ho

end ShinySongTools.Scheduler
