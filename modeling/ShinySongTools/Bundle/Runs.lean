import ShinySongTools.Bundle.Atomicity

/-!
# Sequences of calls

One sandbox, patched and restored any number of times, each call with the
failures it meets; between calls the candidate may be built anew. In a run whose
calls meet only failures they take back, every call is atomic.
-/

namespace ShinySongTools.Bundle

open Effects

/-- What is kept of the last call: the sandbox it started from, and what the
formal path held during it. -/
structure Report where
  op : Op
  before : Sandbox
  formal : List (Option Tree)

structure Session where
  fs : Sandbox
  last : Option Report

inductive Action where
  | patch (running : Bool) (expectedExecutableSha expectedInstalledExecutableSha : Option String)
    (faults : List Fault)
  | restore (running : Bool) (faults : List Fault)
  /-- The candidate is built anew, or removed. -/
  | rebuild (candidate : Option Tree) (manifest : Option Manifest)

/-- A call, on condition that it meets every failure it comes with. -/
def Session.call (s : Session) (op : Op) (m : M Answer) (faults : List Fault) : Option Session :=
  let w := (m.run.run ⟨s.fs, faults, []⟩).2
  if w.faults = [] then some ⟨w.fs, some ⟨op, s.fs, w.formal⟩⟩ else none

section

variable (sha256 : String → String)

def step (s : Session) : Action → Option Session
  | .patch running expected expected' faults =>
    s.call .patch (patch sha256 running expected expected') faults
  | .restore running faults => s.call .restore (restore sha256 running) faults
  | .rebuild candidate manifest => some ⟨{ s.fs with candidate, manifest }, none⟩

def Op.target (s : Sandbox) : Op → Option Tree
  | .patch => s.candidate
  | .restore => s.baseline

def Op.Recorded (target : Tree) : Op → StateFile → Prop
  | .patch => PatchRecorded sha256 target
  | .restore => RestoreRecorded sha256 target

/-- A call that went from `r.before` to `s`: all of it or nothing, no tree cut
short at the formal path, and nothing left beside it. -/
structure Atomic (r : Report) (s : Sandbox) : Prop where
  ended : (∃ target, r.op.target r.before = some target ∧ s.bundle = some target ∧
      r.op.Recorded sha256 target s.state) ∨
    s.bundle = r.before.bundle ∧ s.state.lastInstall = r.before.state.lastInstall ∧
      SameBook sha256 r.before s
  formal : ∀ tree ∈ r.formal, tree = none ∨ tree = r.before.bundle ∨ tree = r.op.target r.before
  residue : s.residueKinds = []

/-- The last call was atomic, and the status is never `interrupted`, nor
`drifted` unless it was at the start. -/
structure Settled (start : Sandbox) (s : Session) : Prop where
  atomic : ∀ r, s.last = some r → Atomic sha256 r s.fs
  interrupted : s.fs.status sha256 ≠ some .interrupted
  drifted : s.fs.status sha256 = some .drifted → start.status sha256 = some .drifted

end

/-- A sandbox to start from: without residue, and with a book that has no
install without a baseline, as every writer of it leaves it. -/
structure Ready (s : Sandbox) : Prop where
  residue : s.residueKinds = []
  book : s.state.baseline = none → s.state.lastInstall = none

def Careful (s : Session) : Action → Prop
  | .patch _ _ _ faults => Budget s.fs s.fs.candidate faults
  | .restore _ faults => Budget s.fs s.fs.baseline faults
  | .rebuild .. => True

-- ---------------------------------------------------------------------------
-- Status
-- ---------------------------------------------------------------------------

section

variable {sha256 : String → String} {s b start : Sandbox}

theorem Quiet.residue (h : Quiet s) : s.residueKinds = [] := by
  simp [Sandbox.residueKinds, h.current, h.stage, h.old]

theorem status_interrupted (h : s.residueKinds = []) : s.status sha256 ≠ some .interrupted := by
  unfold Sandbox.status Sandbox.stateName
  cases s.state.read with
  | none => nofun
  | some book =>
    simp only [h, ne_eq, not_true_eq_false, if_false, Option.map_some, Option.some.injEq]
    split
    · nofun
    split
    · nofun
    split
    · split <;> nofun
    · nofun

theorem status_clean {book : Book} {baseline : Identity} (h : s.residueKinds = [])
    (hstate : s.state = .whole book) (hbook : book.baseline = some baseline)
    (hentries : s.installedEntries sha256 = some baseline.entries) :
    s.status sha256 = some .clean := by
  unfold Sandbox.status Sandbox.stateName
  simp [h, hstate, StateFile.read, hbook, hentries]

theorem status_patched {book : Book} {baseline lastInstall : Identity} (h : s.residueKinds = [])
    (hstate : s.state = .whole book) (hbook : book.baseline = some baseline)
    (hlast : book.lastInstall = some lastInstall)
    (hentries : s.installedEntries sha256 = some lastInstall.entries) :
    s.status sha256 ≠ some .drifted := by
  unfold Sandbox.status Sandbox.stateName
  simp only [h, hstate, StateFile.read, hentries, ne_eq, not_true_eq_false, if_false,
    Option.map_some, Option.bind_some, hbook, hlast, if_true, Option.some.injEq]
  split <;> nofun

theorem status_of_eq (hresidue : s.residueKinds = b.residueKinds) (hstate : s.state = b.state)
    (hbundle : s.bundle = b.bundle) : s.status sha256 = b.status sha256 := by
  have hname : s.stateName sha256 = b.stateName sha256 := by
    funext book
    unfold Sandbox.stateName Sandbox.installedEntries
    rw [hresidue, hbundle]
  rw [Sandbox.status, Sandbox.status, hname, hstate]

/-- A call that is closed has no residue, so only what was drift is. -/
theorem Ended.drifted {op : Op} {target : Tree}
    (h : Ended sha256 b target (op.Recorded sha256 target) s) (hb : b.residueKinds = [])
    (hs : s.residueKinds = []) (hdrifted : s.status sha256 = some .drifted) :
    b.status sha256 = some .drifted := by
  cases h with
  | unchanged bundle book =>
    cases book with
    | same state => exact (status_of_eq (hs.trans hb.symm) state bundle).symm.trans hdrifted
    | baseline identity fresh tree state entries =>
      have hentries : s.installedEntries sha256 = some identity.entries := by
        rw [Sandbox.installedEntries, bundle]
        exact entries
      rw [status_clean hs state rfl hentries] at hdrifted
      cases hdrifted
  | installed bundle book =>
    have hentries : s.installedEntries sha256 = some (computeFingerprint sha256 target) := by
      rw [Sandbox.installedEntries, bundle]
      rfl
    cases op with
    | patch =>
      obtain ⟨baseline, executableSha, hstate⟩ := book
      exact absurd hdrifted (status_patched hs hstate rfl rfl hentries)
    | restore =>
      obtain ⟨executableSha, hstate⟩ := book
      rw [status_clean hs hstate rfl hentries] at hdrifted
      cases hdrifted

-- ---------------------------------------------------------------------------
-- One call
-- ---------------------------------------------------------------------------

theorem SameBook.lastInstall (h : SameBook sha256 b s) (hb : Ready b) :
    s.state.lastInstall = b.state.lastInstall := by
  cases h with
  | same state => rw [state]
  | baseline identity fresh tree state entries =>
    rw [state, hb.book fresh]
    rfl

theorem SameBook.ready (h : SameBook sha256 b s) (hb : Ready b)
    (hnone : s.state.baseline = none) : s.state.lastInstall = none := by
  cases h with
  | same state =>
    rw [state] at hnone ⊢
    exact hb.book hnone
  | baseline identity fresh tree state entries =>
    rw [state] at hnone
    cases hnone

/-- What is handled is atomic, is ready for the next call and drifts nothing. -/
theorem Handled.atomic {op : Op} {w : World} (hb : Ready b)
    (h : Handled sha256 b (op.target b) (fun target => op.Recorded sha256 target) w) :
    Atomic sha256 ⟨op, b, w.formal⟩ w.fs ∧ Ready w.fs ∧
      (w.fs.status sha256 = some .drifted → b.status sha256 = some .drifted) := by
  obtain ⟨rfl, hformal⟩ | ⟨target, htarget, hformal, hquiet, hended⟩ := h
  · refine ⟨⟨.inr ⟨rfl, rfl, .same rfl⟩, ?_, hb.residue⟩, hb, id⟩
    intro tree htree
    rw [hformal] at htree
    cases htree
  · have hresidue := hquiet.residue
    refine ⟨⟨?_, fun tree htree => ?_, hresidue⟩, ⟨hresidue, fun hnone => ?_⟩,
      hended.drifted hb.residue hresidue⟩
    · cases hended with
      | unchanged bundle book => exact .inr ⟨bundle, book.lastInstall hb, book⟩
      | installed bundle book => exact .inl ⟨target, htarget, bundle, book⟩
    · have h := hformal tree htree
      rwa [← htarget] at h
    · cases hended with
      | unchanged bundle book => exact book.ready hb hnone
      | installed bundle book =>
        cases op with
        | patch =>
          obtain ⟨baseline, executableSha, hstate⟩ := book
          rw [hstate] at hnone
          cases hnone
        | restore =>
          obtain ⟨executableSha, hstate⟩ := book
          rw [hstate]
          rfl

structure Kept (sha256 : String → String) (start : Sandbox) (s : Session) : Prop where
  ready : Ready s.fs
  atomic : ∀ r, s.last = some r → Atomic sha256 r s.fs
  drifted : s.fs.status sha256 = some .drifted → start.status sha256 = some .drifted

theorem Kept.call {s s' : Session} {op : Op} {m : M Answer} {faults : List Fault}
    (h : Kept sha256 start s) (hs : s.call op m faults = some s')
    (hm : Ends m ⟨s.fs, faults, []⟩
      (fun _ w' =>
        Handled sha256 s.fs (op.target s.fs) (fun target => op.Recorded sha256 target) w')
      fun _ w' =>
        Handled sha256 s.fs (op.target s.fs) (fun target => op.Recorded sha256 target) w') :
    Kept sha256 start s' := by
  have hhandled : Handled sha256 s.fs (op.target s.fs) (fun target => op.Recorded sha256 target)
      (m.run.run ⟨s.fs, faults, []⟩).2 := by
    unfold Ends at hm
    cases hrun : m.run.run ⟨s.fs, faults, []⟩ with
    | mk r w =>
      rw [hrun] at hm
      cases r with
      | ok => exact hm
      | error => exact hm
  obtain ⟨hatomic, hready, hdrifted⟩ := hhandled.atomic h.ready
  simp only [Session.call] at hs
  split at hs
  case isFalse => cases hs
  cases hs
  refine ⟨hready, ?_, fun hd => h.drifted (hdrifted hd)⟩
  rintro _ ⟨⟩
  exact hatomic

theorem Kept.step {s s' : Session} {a : Action} (h : Kept sha256 start s) (ha : Careful s a)
    (hs : step sha256 s a = some s') : Kept sha256 start s' := by
  cases a with
  | patch running expected expected' faults =>
    have hs : s.call .patch (patch sha256 running expected expected') faults = some s' := hs
    exact h.call hs (patch_ends ha ⟨rfl, rfl⟩)
  | restore running faults =>
    have hs : s.call .restore (restore sha256 running) faults = some s' := hs
    exact h.call hs (restore_ends ha ⟨rfl, rfl⟩)
  | rebuild candidate manifest =>
    cases hs
    refine ⟨⟨h.ready.residue, h.ready.book⟩, ?_, fun hdrifted => h.drifted ?_⟩
    · rintro _ ⟨⟩
    · exact (status_of_eq rfl rfl rfl).trans hdrifted

theorem Kept.settled {s : Session} (h : Kept sha256 start s) : Settled sha256 start s :=
  ⟨h.atomic, status_interrupted h.ready.residue, h.drifted⟩

end

-- ---------------------------------------------------------------------------
-- Runs
-- ---------------------------------------------------------------------------

/-- In a run whose calls meet only failures they take back, every call is
atomic. -/
theorem runs_atomic (sha256 : String → String) (start : Sandbox) (as : List Action)
    (hstart : Ready start) (has : Machine.Each (step sha256) Careful ⟨start, none⟩ as) :
    Machine.Always (step sha256) (Settled sha256 start) ⟨start, none⟩ as := by
  have hkept : Kept sha256 start ⟨start, none⟩ := by
    refine ⟨hstart, ?_, fun hdrifted => hdrifted⟩
    rintro _ ⟨⟩
  exact (Machine.Each.always (fun _ _ _ h ha hs => h.step ha hs) hkept has).mono
    fun _ h => h.settled

/-- A bundle of one file with a candidate for it, not yet patched. -/
def unpatched : Sandbox where
  bundle := some [("AKInterface", "old")]
  stage := none
  old := none
  baseline := none
  candidate := some [("AKInterface", "new")]
  manifest := some ⟨some "AKInterface", some "new", [(some "AKInterface", some "new")]⟩
  state := .absent
  current := false
  history := []

/-- Two patches and two restorations: each first one meets failures and is taken
back, each second one goes through. -/
def lifecycle : List Action :=
  [.patch false (some "new") (some "old") [.throws .swapFingerprint, .move .old .bundle],
    .patch false (some "new") (some "old") [], .restore false [.move .stage .bundle],
    .restore false []]

theorem lifecycle_atomic :
    Machine.Always (step id) (Settled id unpatched) ⟨unpatched, none⟩ lifecycle ∧
      (Machine.exec (step id) ⟨unpatched, none⟩ lifecycle).map
        (fun s => (s.fs.bundle, s.fs.status id, s.fs.history.map Record.outcome)) =
        some (some [("AKInterface", "old")], some .clean,
          [.failed "move", .success, .failed "move", .success]) := by
  refine ⟨runs_atomic id unpatched lifecycle ⟨rfl, fun _ => rfl⟩ ?_, by decide +kernel⟩
  refine fun _ _ => ⟨.again rfl ⟨rfl, rfl⟩, fun _ _ => ⟨.nil, fun _ _ => ⟨.one ⟨rfl, rfl⟩, ?_⟩⟩⟩
  exact fun _ _ => ⟨.nil, trivial⟩

/-- A stage that is not signed is refused and left behind. -/
theorem unsigned_stage_left :
    ¬ ∀ as, Machine.Always (step id) (Settled id unpatched) ⟨unpatched, none⟩ as := by
  intro h
  have hleft : (Machine.exec (step id) ⟨unpatched, none⟩
      [.patch false (some "new") (some "old") [.unsigned .stageSignature]]).map
        (fun s => s.fs.status id) = some (some .interrupted) := by decide +kernel
  obtain ⟨s, hs, hstatus⟩ := Option.map_eq_some_iff.mp hleft
  exact ((h _).exec hs).interrupted hstatus

end ShinySongTools.Bundle
