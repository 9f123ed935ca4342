import ShinySongTools.Machine
import ShinySongTools.Bundle.Primitives

/-!
# The bundle transaction, whole or not at all

Which failures the ladder of a call takes back: then the call ends with the
target installed and recorded, or with what was there before. Any other failure
leaves residue, a tree cut short at the formal path or an installed bundle
without a record.
-/

namespace ShinySongTools.Bundle

open Effects

-- ---------------------------------------------------------------------------
-- Failures a call can take back
-- ---------------------------------------------------------------------------

/-- Taken back where it is the only one, from a sandbox `s` and with `goal` to
install: every read and check but those between the copy to the stage and the
swap, a copy that has not made the stage, the rename of the stage and the
verification after it, a deletion of the old bundle that has deleted nothing,
and a first writing of the history. What fails between the deletion of the old
bundle and the record is taken back only where it makes no difference. -/
def Harmless (s : Sandbox) (goal : Option Tree) : Fault → Prop
  | .throws c => c ≠ .stageFingerprint ∧ c ≠ .stageSignature ∧ (c = .bookAgain → s.bundle = goal)
  | .unsigned c => c ≠ .stageSignature
  | .copy dst left => dst = .stage → left = none
  | .delete p left => p = .baseline ∨ (p = .old ∧ s.bundle = some left)
  | .move src dst => src = .stage ∧ dst = .bundle
  | .write .current left => left = .untouched
  | .write .baselineBook left => left ≠ .torn
  | .write .book left => left = .written ∨ (left = .untouched ∧ s.bundle = goal)
  | .write (.history outcome) _ => outcome = "success"
  | .unlink => False

def Fault.unverified : Fault → Bool
  | .throws c => c = .swapFingerprint ∨ c = .swapSignature
  | .unsigned c => c = .swapSignature
  | _ => false

/-- The handler of the call does again what failed in the handler of the swap. -/
def Retried (s : Sandbox) (goal : Option Tree) : Fault → Prop
  | .delete p left => p = .bundle ∧ (some left = s.bundle ∨ some left = goal)
  | .move src dst => src = .old ∧ dst = .bundle
  | _ => False

/-- At most one failure, and a harmless one, or a failed verification and one
that is retried. -/
inductive Budget (s : Sandbox) (goal : Option Tree) : List Fault → Prop
  | nil : Budget s goal []
  | one (harmless : Harmless s goal fault) : Budget s goal [fault]
  | again (unverified : fault.unverified = true) (retried : Retried s goal fault') :
    Budget s goal [fault, fault']

variable {b : Sandbox} {goal : Option Tree} {w w' : World}

theorem Budget.met (h : Budget b goal w.faults) (hmet : w.faults = fault :: rest)
    (hfault : fault.unverified = false) : rest = [] ∧ Harmless b goal fault := by
  rw [hmet] at h
  cases h with
  | one harmless => exact ⟨rfl, harmless⟩
  | again unverified => exact absurd (hfault.symm.trans unverified) nofun

theorem Budget.unverified (h : Budget b goal w.faults) (hmet : w.faults = fault :: rest) :
    rest = [] ∨ ∃ again, rest = [again] ∧ Retried b goal again := by
  rw [hmet] at h
  cases h with
  | one => exact .inl rfl
  | again _ retried => exact .inr ⟨_, rfl, retried⟩

/-- What is to be met next does not fail another record than one of success. -/
def Closes : List Fault → Prop
  | .write (.history outcome) _ :: _ => outcome = "success"
  | .unlink :: _ => False
  | _ => True

theorem closes_of_nil (h : faults = []) : Closes faults := by
  rw [h]
  trivial

theorem Budget.closes (h : Budget b goal faults) : Closes faults := by
  cases h with
  | nil => trivial
  | @one fault harmless =>
    cases fault with
    | write f left =>
      cases f with
      | history => exact harmless
      | _ => trivial
    | unlink => exact harmless
    | _ => trivial
  | @again _ fault unverified =>
    cases fault with
    | throws => trivial
    | unsigned => trivial
    | _ => cases unverified

theorem Retried.closes (h : Retried b goal fault) : Closes [fault] := by
  cases fault with
  | delete => trivial
  | move => trivial
  | _ => cases h

-- ---------------------------------------------------------------------------
-- The swap
-- ---------------------------------------------------------------------------

section

variable {sha256 : String → String}

def Formal (b : Sandbox) (target : Tree) (w : World) : Prop :=
  ∀ tree ∈ w.formal, tree = none ∨ tree = b.bundle ∨ tree = some target

variable {target installed : Tree}

theorem Formal.append (h : Formal b target w) (hformal : w'.formal = w.formal ++ [tree])
    (htree : tree = none ∨ tree = b.bundle ∨ tree = some target) : Formal b target w' := by
  intro t ht
  rw [hformal] at ht
  obtain ht | ht := List.mem_append.mp ht
  · exact h t ht
  · rw [List.mem_singleton.mp ht]
    exact htree

theorem Formal.rolled (h : Formal b target w)
    (hformal : ∀ t ∈ w'.formal, t ∈ w.formal ∨ t = none ∨ t = tree)
    (htree : tree = none ∨ tree = b.bundle ∨ tree = some target) : Formal b target w' := by
  intro t ht
  obtain ht | rfl | rfl := hformal t ht
  · exact h t ht
  · exact .inl rfl
  · exact htree

/-- Where the handler of the swap starts: the stage is not moved, or what was
moved does not verify and something may be left to fail. -/
inductive Swapping (b : Sandbox) (target : Tree) (w w' : World) : Prop
  | staged (faults : w'.faults = []) (fs : w'.fs = w.fs)
  | moved (faults : w'.faults = [] ∨ ∃ again, w'.faults = [again] ∧ Retried b (some target) again)
    (fs : w'.fs = { w.fs with bundle := some target, stage := none })

theorem swapIn_ends {expected : Entries} (hformal : Formal b target w)
    (h : Budget b (some target) w.faults) (hbundle : w.fs.bundle = none)
    (hstage : w.fs.stage = some target) (hexpected : expected = computeFingerprint sha256 target) :
    Ends (do
      atomicMove .stage .bundle
      let installed ← fingerprintOf sha256 .swapFingerprint .bundle
      when (expected ≠ installed) (throw (.failed "换入后 fingerprint 验证失败"))
      let signed ← codesignOk .swapSignature
      when (signed = false) (throw (.failed "换入后签名验证失败"))) w
      (fun _ w' => Budget b (some target) w'.faults ∧ Formal b target w' ∧
        w'.fs = { w.fs with bundle := some target, stage := none })
      fun e w' => e ≠ .idempotent ∧ Formal b target w' ∧ Swapping b target w w' := by
  have hsrc : w.fs.tree .stage = some target := hstage
  have hdst : w.fs.tree .bundle = none := hbundle
  refine Ends.bind ((atomicMove_ends hsrc hdst).mono (fun _ _ => id) ?_) ?_
  · rintro e _ ⟨rest, hmet, rfl⟩
    obtain ⟨rfl, -⟩ := h.met hmet.faults rfl
    exact ⟨hmet.exn, hformal, .staged rfl rfl⟩
  rintro _ _ rfl
  have hformal' : Formal b target ((w.set .stage none).set .bundle (some target)) :=
    hformal.append rfl (.inr (.inr rfl))
  have hp : ((w.set .stage none).set .bundle (some target)).fs.tree .bundle = some target := rfl
  refine Ends.bind ((fingerprintOf_ends hp).mono (fun _ _ => id) ?_) ?_
  · rintro e _ ⟨rest, hmet, rfl⟩
    exact ⟨hmet.exn, hformal', .moved (h.unverified hmet.faults) rfl⟩
  rintro _ _ ⟨rfl, rfl⟩
  refine Ends.bind (R := fun _ w' => (w.set .stage none).set .bundle (some target) = w') ?_ ?_
  · exact Ends.when (fun hne => absurd hexpected hne) fun _ => rfl
  rintro _ _ rfl
  refine Ends.bind (codesignOk_ends.mono (fun _ _ => id) ?_) ?_
  · rintro e _ ⟨rest, hmet, rfl⟩
    exact ⟨hmet.exn, hformal', .moved (h.unverified hmet.faults) rfl⟩
  rintro _ _ (⟨rfl, rfl⟩ | ⟨rest, rfl, hfaults, rfl⟩)
  · exact Ends.when nofun fun _ => ⟨h, hformal', rfl⟩
  · refine Ends.when (fun _ => Ends.throw ⟨nofun, hformal', ?_⟩) fun hne => absurd rfl hne
    exact .moved (h.unverified hfaults) rfl

theorem Swapping.closes (h : Swapping b target w w') : Closes w'.faults := by
  cases h with
  | staged faults =>
    rw [faults]
    trivial
  | moved faults =>
    obtain faults | ⟨again, faults, hretried⟩ := faults
    · rw [faults]
      trivial
    · rw [faults]
      exact hretried.closes

/-- Where the handler of the swap ends: everything is back, or the old bundle is
still aside and the handler of the call meets no other failure. -/
inductive SwappedBack (installed : Tree) (w w' : World) : Prop
  | back (closes : Closes w'.faults)
    (fs : w'.fs = { w.fs with bundle := some installed, old := none, stage := none })
  | aside (left : Option Tree) (faults : w'.faults = []) (stage : w.fs.stage = none)
    (fs : w'.fs = { w.fs with bundle := left })

theorem swapBack_ends {w₀ : World} (e : Exn) (he : e ≠ .idempotent) (hb : b.bundle = some installed)
    (hold : w₀.fs.old = some installed) (hformal : Formal b target w) (h : Swapping b target w₀ w) :
    Ends (do rollbackToOld; deleteTree .stage; throw e : M Unit) w (fun _ _ => False)
      fun e' w' => e' ≠ .idempotent ∧ Formal b target w' ∧ SwappedBack installed w w' := by
  have hold : w.fs.old = some installed := by
    cases h with
    | staged _ fs => rw [fs]; exact hold
    | moved _ fs => rw [fs]; exact hold
  refine Ends.bind ((rollback_some hold).mono (fun _ _ => id) ?_) ?_
  · -- only what is done again can fail here
    rintro e' w₁ ⟨fault, rest, left, hmet, hleft, hfaults₁, hfs₁, hformal₁⟩
    cases h with
    | staged faults => exact absurd (faults.symm.trans hmet.faults) nofun
    | moved faults fs =>
      obtain faults | ⟨again, faults, hretried⟩ := faults
      · exact absurd (faults.symm.trans hmet.faults) nofun
      obtain ⟨rfl, rfl⟩ := List.cons.inj (faults.symm.trans hmet.faults)
      have hstage : w.fs.stage = none := fs ▸ rfl
      refine ⟨hmet.exn, hformal.rolled hformal₁ ?_, .aside left hfaults₁ hstage hfs₁⟩
      obtain ⟨-, rfl⟩ | ⟨cut, rfl, rfl⟩ := hleft
      · exact .inl rfl
      · exact .inr hretried.2
  rintro _ w₁ ⟨hfaults₁, hfs₁, hformal₁⟩
  refine Ends.bind (R := fun _ w' => w'.faults = w₁.faults ∧ w'.fs = w₁.fs.put .stage none ∧
    Formal b target w') ?_ ?_
  · have hformal₁ : Formal b target w₁ := hformal.rolled hformal₁ (.inr (.inl hb.symm))
    refine deleteTree_ends.mono ?_ ?_
    · rintro _ w₂ ⟨hfaults₂, hfs₂, hformal₂⟩
      exact ⟨hfaults₂, hfs₂, hformal₁.rolled (fun t ht => (hformal₂ t ht).imp id .inl) (.inl rfl)⟩
    · rintro e' _ ⟨left, rest, hmet, -⟩
      have hmet := hfaults₁.symm.trans hmet.faults
      cases h with
      | staged faults => exact absurd (faults.symm.trans hmet) nofun
      | moved faults =>
        obtain faults | ⟨again, faults, hretried⟩ := faults
        · exact absurd (faults.symm.trans hmet) nofun
        · obtain ⟨rfl, -⟩ := List.cons.inj (faults.symm.trans hmet)
          exact absurd hretried.1 nofun
  rintro _ w₂ ⟨hfaults₂, hfs₂, hformal₂⟩
  refine Ends.throw ⟨he, hformal₂, .back ?_ ?_⟩
  · rw [hfaults₂, hfaults₁]
    exact h.closes
  · rw [hfs₂, hfs₁]
    rfl

/-- The swap puts the stage in place of the bundle, or throws and has put the
bundle back or left that to its caller. -/
theorem swapAndVerify_ends {expected : Entries} (hformal : Formal b target w)
    (h : Budget b (some target) w.faults) (hb : b.bundle = some installed)
    (hbundle : w.fs.bundle = some installed) (hstage : w.fs.stage = some target)
    (hold : w.fs.old = none) (hexpected : expected = computeFingerprint sha256 target) :
    Ends (swapAndVerify sha256 expected) w
      (fun _ w' => Budget b (some target) w'.faults ∧ Formal b target w' ∧
        w'.fs = { w.fs with bundle := some target, old := some installed, stage := none })
      fun e w' => e ≠ .idempotent ∧ Formal b target w' ∧
        ((Closes w'.faults ∧ w'.fs = { w.fs with stage := none }) ∨
          w'.faults = [] ∧ ∃ left,
            w'.fs = { w.fs with bundle := left, old := some installed, stage := none }) := by
  refine fs_bind
    (Ends.bind (R := fun _ w' => w' = (w.set .bundle none).set .old (some installed)) ?_ ?_)
  · refine Ends.when (fun _ => ?_) fun hnone => ?_
    · have hsrc : w.fs.tree .bundle = some installed := hbundle
      have hdst : w.fs.tree .old = none := hold
      refine (atomicMove_ends hsrc hdst).mono (fun _ _ => id) ?_
      rintro e _ ⟨rest, hmet, -⟩
      exact absurd (h.met hmet.faults rfl).2.1 nofun
    · rw [hbundle] at hnone
      exact absurd rfl hnone
  rintro _ _ rfl
  have hformal' : Formal b target ((w.set .bundle none).set .old (some installed)) :=
    hformal.append rfl (.inl rfl)
  refine Ends.tryCatch (swapIn_ends hformal' h rfl hstage hexpected) ?_
  rintro e w₁ ⟨he, hformal₁, hswapping⟩
  have hfs : w₁.fs = { w.fs with bundle := none, old := some installed } ∨
      w₁.fs = { w.fs with bundle := some target, old := some installed, stage := none } := by
    cases hswapping with
    | staged _ fs => exact .inl fs
    | moved _ fs => exact .inr fs
  refine (swapBack_ends e he hb rfl hformal₁ hswapping).mono (fun _ _ => False.elim) ?_
  rintro e' w₂ ⟨he', hformal₂, hback⟩
  refine ⟨he', hformal₂, ?_⟩
  cases hback with
  | back closes fs =>
    refine .inl ⟨closes, ?_⟩
    rw [fs, ← hbundle, ← hold]
    obtain hfs | hfs := hfs <;> rw [hfs]
  | aside left faults stage fs =>
    refine .inr ⟨faults, left, ?_⟩
    obtain hfs | hfs := hfs
    · rw [hfs] at stage
      exact absurd (hstage.symm.trans stage) nofun
    · rw [fs, hfs]

-- ---------------------------------------------------------------------------
-- The rest of the ladder
-- ---------------------------------------------------------------------------

variable (sha256) in
/-- The records are as before, but for a first baseline. -/
inductive SameBook (b s : Sandbox) : Prop
  | same (state : s.state = b.state)
  | baseline (identity : Identity) (fresh : b.state.baseline = none) (tree : s.baseline = b.bundle)
      (state : s.state = .whole ⟨some identity, none⟩)
      (entries : b.installedEntries sha256 = some identity.entries)

theorem SameBook.of_eq {s s' : Sandbox} (h : SameBook sha256 b s) (hstate : s'.state = s.state)
    (htree : s'.baseline = s.baseline) : SameBook sha256 b s' := by
  cases h with
  | same state => exact .same (hstate.trans state)
  | baseline identity fresh tree state entries =>
    exact .baseline identity fresh (htree.trans tree) (hstate.trans state) entries

variable (sha256) in
inductive Failing (b : Sandbox) (target : Tree) (recorded : StateFile → Prop) (w : World) : Prop
  | before (closes : Closes w.faults) (bundle : w.fs.bundle = b.bundle) (stage : w.fs.stage = none)
      (old : w.fs.old = none) (book : SameBook sha256 b w.fs)
  | aside (faults : w.faults = []) (stage : w.fs.stage = none) (old : w.fs.old = b.bundle)
      (book : SameBook sha256 b w.fs)
  | after (closes : Closes w.faults) (bundle : w.fs.bundle = some target)
      (stage : w.fs.stage = none)
      (old : w.fs.old = none) (book : recorded w.fs.state)

variable (sha256) in
def Stops (b : Sandbox) (target : Tree) (recorded : StateFile → Prop) (e : Exn)
    (w : World) : Prop :=
  e ≠ .idempotent ∧ Formal b target w ∧ Failing sha256 b target recorded w

structure Quiet (s : Sandbox) : Prop where
  current : s.current = false
  stage : s.stage = none
  old : s.old = none

variable (sha256) in
/-- A call ends with the target installed and recorded, or as it began. -/
inductive Ended (b : Sandbox) (target : Tree) (recorded : StateFile → Prop) (s : Sandbox) : Prop
  | unchanged (bundle : s.bundle = b.bundle) (book : SameBook sha256 b s)
  | installed (bundle : s.bundle = some target) (book : recorded s.state)

variable (sha256) in
def Closed (b : Sandbox) (target : Tree) (recorded : StateFile → Prop) (w : World) : Prop :=
  Formal b target w ∧ Quiet w.fs ∧ Ended sha256 b target recorded w.fs

variable {recorded : StateFile → Prop}

theorem stageCopy_ends {src : Path} (hsrc : w.fs.tree src = some target)
    (hstage : w.fs.stage = none)
    (h : Budget b (some target) w.faults) :
    Ends (stageCopy sha256 src) w
      (fun r w' => r = computeFingerprint sha256 target ∧ w' = w.set .stage (some target))
      fun e w' => e ≠ .idempotent ∧ w'.formal = w.formal ∧ w'.faults = [] ∧ w'.fs = w.fs := by
  have hdst : w.fs.tree .stage = none := hstage
  refine Ends.bind (deleteTree_absent hdst) ?_
  rintro _ _ rfl
  refine Ends.bind ((copyTree_ends hsrc hdst).mono (fun _ _ => id) ?_) ?_
  · rintro e _ ⟨left, rest, hmet, rfl⟩
    obtain ⟨rfl, hharmless⟩ := h.met hmet.faults rfl
    obtain rfl := hharmless rfl
    refine ⟨hmet.exn, rfl, rfl, ?_⟩
    simp only [World.set, World.spend, Sandbox.put, ← hstage]
  rintro _ _ rfl
  have hp : (w.set .stage (some target)).fs.tree .stage = some target := rfl
  refine (fingerprintOf_ends hp).mono ?_ ?_
  · rintro r _ ⟨hr, rfl⟩
    exact ⟨hr, rfl⟩
  · rintro e _ ⟨rest, hmet, -⟩
    exact absurd rfl (h.met hmet.faults rfl).2.1

theorem dropOld_ends (h : Budget b (some target) w.faults) (hstage : w.fs.stage = none)
    (hold : w.fs.old = some installed) (hbook : SameBook sha256 b w.fs)
    (hformal : Formal b target w) :
    Ends (deleteTree .old) w (fun _ w' => w' = w.set .old none)
      (Stops sha256 b target recorded) := by
  have hp : w.fs.tree .old = some installed := hold
  refine (deleteTree_present hp).mono (fun _ _ => id) ?_
  rintro e _ ⟨left, rest, hmet, rfl⟩
  obtain ⟨rfl, hharmless⟩ := h.met hmet.faults rfl
  obtain hpath | ⟨-, hleft⟩ := hharmless
  · cases hpath
  · exact ⟨hmet.exn, hformal, .aside rfl hstage hleft.symm (hbook.of_eq rfl rfl)⟩

theorem settle_ends {book : Book} {record : Record} (h : Budget b (some target) w.faults)
    (hbundle : w.fs.bundle = some target) (hstage : w.fs.stage = none) (hold : w.fs.old = none)
    (hbook : SameBook sha256 b w.fs) (hrecorded : recorded (.whole book))
    (hformal : Formal b target w) :
    Ends (settle book record) w (fun _ w' => Closed sha256 b target recorded w')
      (Stops sha256 b target recorded) := by
  refine Ends.bind (spit_ends.mono (fun _ _ => id) ?_) ?_
  · rintro e w' ⟨left, rest, hmet, hfaults, hw', hfs⟩
    obtain ⟨rfl, hharmless⟩ := h.met hmet.faults rfl
    have hcloses : Closes w'.faults := closes_of_nil hfaults
    refine ⟨hmet.exn, fun t ht => hformal t (hw' ▸ ht), ?_⟩
    obtain rfl | ⟨rfl, hsame⟩ := hharmless
    · have hfs' : w'.fs = { w.fs with state := .whole book } := hfs
      refine .after hcloses ?_ ?_ ?_ ?_ <;> rw [hfs'] <;> assumption
    · -- the target is what was installed before
      have hfs' : w'.fs = w.fs := hfs
      refine .before hcloses ?_ ?_ ?_ ?_ <;> rw [hfs']
      · exact hbundle.trans hsame.symm
      · exact hstage
      · exact hold
      · exact hbook
  rintro _ _ rfl
  refine Ends.bind (finishTxn_ends.mono (fun _ _ => id) ?_) ?_
  · rintro e w' ⟨⟨left, rest, hmet, hfaults⟩, hw', history, hfs⟩
    obtain ⟨rfl, -⟩ := h.met hmet.faults rfl
    have hcloses : Closes w'.faults := closes_of_nil hfaults
    refine ⟨hmet.exn, fun t ht => hformal t (hw' ▸ ht), ?_⟩
    refine .after hcloses ?_ ?_ ?_ ?_ <;> rw [hfs] <;> assumption
  rintro _ w' ⟨hw', ⟨rest, hunlink⟩ | ⟨-, hfs⟩⟩
  · exact (h.met hunlink rfl).2.elim
  have hstage' : w'.fs.tree .stage = none := by
    rw [hfs]
    exact hstage
  have hold' : w'.fs.tree .old = none := by
    rw [hfs]
    exact hold
  refine Ends.bind (deleteTree_absent hstage') ?_
  rintro _ _ rfl
  refine (deleteTree_absent hold').mono ?_ fun _ _ => id
  rintro _ _ rfl
  refine ⟨fun t ht => hformal t (hw' ▸ ht), ?_, ?_⟩
  · rw [hfs]
    exact ⟨rfl, hstage, hold⟩
  · rw [hfs]
    exact .installed hbundle hrecorded

-- ---------------------------------------------------------------------------
-- The bodies
-- ---------------------------------------------------------------------------

/-- Where a body starts: in its transaction, with every tree in its place. -/
structure Begun (b : Sandbox) (target : Tree) (w : World) : Prop where
  budget : Budget b (some target) w.faults
  formal : Formal b target w
  bundle : w.fs.bundle = b.bundle
  stage : w.fs.stage = none
  old : w.fs.old = none
  candidate : w.fs.candidate = b.candidate

theorem Begun.stops (h : Begun b target w) (he : e ≠ .idempotent) (hbook : SameBook sha256 b w.fs) :
    Stops sha256 b target recorded e w :=
  ⟨he, h.formal, .before h.budget.closes h.bundle h.stage h.old hbook⟩

theorem Begun.spent (h : Begun b target w) : Begun b target (w.spend []) :=
  ⟨.nil, h.formal, h.bundle, h.stage, h.old, h.candidate⟩

theorem Begun.baseline (h : Begun b target w) (tree : Option Tree) :
    Begun b target (w.set .baseline tree) :=
  ⟨h.budget, h.formal, h.bundle, h.stage, h.old, h.candidate⟩

theorem Begun.stopped (h : Begun b target w) (hthrown : e ≠ .idempotent ∧ w'.formal = w.formal ∧
    w'.faults = [] ∧ w'.fs = w.fs) (hbook : SameBook sha256 b w.fs) :
    Stops sha256 b target recorded e w' := by
  obtain ⟨he, hformal, hfaults, hfs⟩ := hthrown
  have hcloses : Closes w'.faults := closes_of_nil hfaults
  refine ⟨he, fun t ht => h.formal t (hformal ▸ ht), .before hcloses ?_ ?_ ?_ ?_⟩ <;> rw [hfs]
  · exact h.bundle
  · exact h.stage
  · exact h.old
  · exact hbook

/-- The first patch records the installed bundle as the baseline, or throws and
has recorded nothing else. -/
theorem establishBaseline_ends {expected : Option String} (h : Begun b target w)
    (hb : b.bundle = some installed) (hstate : w.fs.state = b.state)
    (hfresh : b.state.baseline = none) :
    Ends (establishBaseline sha256 expected (b.installedEntries sha256)) w
      (fun _ w' => Begun b target w' ∧ SameBook sha256 b w'.fs ∧
        ∃ identity, w'.fs.state = .whole ⟨some identity, none⟩)
      (Stops sha256 b target recorded) := by
  have hbook : SameBook sha256 b w.fs := .same hstate
  refine Ends.bind (R := fun _ w' => w = w') ?_ ?_
  · exact Ends.when (fun _ => Ends.throw (h.stops nofun hbook)) fun _ => rfl
  rintro _ _ rfl
  refine Ends.bind (check_ends.mono (fun _ _ => id) ?_) ?_
  · rintro e _ ⟨rest, hmet, rfl⟩
    obtain ⟨rfl, -⟩ := h.budget.met hmet.faults rfl
    exact h.spent.stops hmet.exn hbook
  rintro _ _ rfl
  refine fs_bind (Ends.bind (R := fun _ w' => w = w') ?_ ?_)
  · exact Ends.when (fun _ => Ends.throw (h.stops nofun hbook)) fun _ => rfl
  rintro _ _ rfl
  refine Ends.bind (R := fun _ w' => w = w') ?_ ?_
  · exact Ends.when (fun _ => Ends.throw (h.stops nofun hbook)) fun _ => rfl
  rintro _ _ rfl
  refine Ends.bind (R := fun _ w' => w' = w.set .baseline none) ?_ ?_
  · cases hp : w.fs.tree .baseline with
    | none =>
      refine (deleteTree_absent hp).mono ?_ fun _ _ => id
      rintro _ _ rfl
      simp only [World.set, Sandbox.put, ← hp]
      rfl
    | some tree =>
      refine (deleteTree_present hp).mono (fun _ _ => id) ?_
      rintro e _ ⟨left, rest, hmet, rfl⟩
      obtain ⟨rfl, -⟩ := h.budget.met hmet.faults rfl
      exact (h.spent.baseline _).stops hmet.exn (.same hstate)
  rintro _ _ rfl
  have hsrc : (w.set .baseline none).fs.tree .bundle = some installed := h.bundle.trans hb
  have hdst : (w.set .baseline none).fs.tree .baseline = none := rfl
  refine Ends.bind ((copyTree_ends hsrc hdst).mono (fun _ _ => id) ?_) ?_
  · rintro e _ ⟨left, rest, hmet, rfl⟩
    obtain ⟨rfl, -⟩ := h.budget.met hmet.faults rfl
    exact (h.spent.baseline _).stops hmet.exn (.same hstate)
  rintro _ _ rfl
  have h' : Begun b target ((w.set .baseline none).set .baseline (some installed)) :=
    (h.baseline none).baseline _
  have hp : ((w.set .baseline none).set .baseline (some installed)).fs.tree .baseline =
    some installed := rfl
  refine Ends.bind ((fingerprintOf_ends hp).mono (fun _ _ => id) ?_) ?_
  · rintro e _ ⟨rest, hmet, rfl⟩
    obtain ⟨rfl, -⟩ := h.budget.met hmet.faults rfl
    exact h'.spent.stops hmet.exn (.same hstate)
  rintro _ _ ⟨rfl, rfl⟩
  have hentries : b.installedEntries sha256 = some (computeFingerprint sha256 installed) := by
    rw [Sandbox.installedEntries, hb]
    rfl
  refine Ends.bind
    (R := fun _ w' => (w.set .baseline none).set .baseline (some installed) = w') ?_ ?_
  · exact Ends.when (fun hne => absurd hentries.symm hne) fun _ => rfl
  rintro _ _ rfl
  refine spit_ends.mono ?_ ?_
  · rintro _ _ rfl
    refine ⟨⟨h'.budget, h'.formal, h'.bundle, h'.stage, h'.old, h'.candidate⟩, ?_, _, rfl⟩
    exact .baseline _ hfresh hb.symm rfl hentries
  · rintro e w' ⟨left, rest, hmet, hfaults, hformal, hfs⟩
    obtain ⟨rfl, hharmless⟩ := h.budget.met hmet.faults rfl
    have hcloses : Closes w'.faults := closes_of_nil hfaults
    refine ⟨hmet.exn, fun t ht => h'.formal t (hformal ▸ ht), ?_⟩
    cases left with
    | untouched =>
      refine .before hcloses ?_ ?_ ?_ (.same ?_) <;> rw [hfs]
      · exact h'.bundle
      · exact h'.stage
      · exact h'.old
      · exact hstate
    | torn => exact absurd rfl hharmless
    | written =>
      refine .before hcloses ?_ ?_ ?_ ?_ <;> rw [hfs]
      · exact h'.bundle
      · exact h'.stage
      · exact h'.old
      · exact .baseline _ hfresh hb.symm rfl hentries

theorem baseline_of_read {state : StateFile} (h : state.read = some book) :
    book.bind (·.baseline) = state.baseline := by
  cases state with
  | absent =>
    cases h
    rfl
  | torn => cases h
  | whole => cases h; rfl

/-- From a verified stage to the settled target; `next` is what the call does
between the deletion of the old bundle and its return. -/
theorem swapped_ends {next : M Answer} {expected : Entries} (h : Begun b target w)
    (hbook : SameBook sha256 b w.fs) (hb : b.bundle = some installed)
    (hexpected : expected = computeFingerprint sha256 target)
    (hnext : ∀ w', Budget b (some target) w'.faults → Formal b target w' →
      w'.fs.bundle = some target → w'.fs.stage = none → w'.fs.old = none →
      SameBook sha256 b w'.fs → w'.fs.state = w.fs.state →
      Ends next w' (fun _ w' => Closed sha256 b target recorded w')
        (Stops sha256 b target recorded)) :
    Ends (do
      swapAndVerify sha256 expected
      deleteTree .old
      next) (w.set .stage (some target)) (fun _ w' => Closed sha256 b target recorded w')
      (Stops sha256 b target recorded) := by
  have hbundle : (w.set .stage (some target)).fs.bundle = some installed := h.bundle.trans hb
  have hformal : Formal b target (w.set .stage (some target)) := h.formal
  refine Ends.bind ((swapAndVerify_ends hformal h.budget hb hbundle rfl h.old hexpected).mono
    (fun _ _ => id) ?_) ?_
  · rintro e w' ⟨he, hformal', ⟨hcloses, hfs⟩ | ⟨hfaults, left, hfs⟩⟩
    · have hbook' : SameBook sha256 b w'.fs := hbook.of_eq (hfs ▸ rfl) (hfs ▸ rfl)
      refine ⟨he, hformal', .before hcloses ?_ ?_ ?_ hbook'⟩ <;> rw [hfs]
      · exact h.bundle
      · exact h.old
    · have hbook' : SameBook sha256 b w'.fs := hbook.of_eq (hfs ▸ rfl) (hfs ▸ rfl)
      refine ⟨he, hformal', .aside hfaults ?_ ?_ hbook'⟩ <;> rw [hfs]
      exact hb.symm
  rintro _ w₁ ⟨h₁, hformal₁, hfs₁⟩
  have hbook₁ : SameBook sha256 b w₁.fs := hbook.of_eq (hfs₁ ▸ rfl) (hfs₁ ▸ rfl)
  have hold₁ : w₁.fs.old = some installed := hfs₁ ▸ rfl
  have hbundle₁ : w₁.fs.bundle = some target := hfs₁ ▸ rfl
  have hstage₁ : w₁.fs.stage = none := hfs₁ ▸ rfl
  have hstate₁ : w₁.fs.state = w.fs.state := hfs₁ ▸ rfl
  refine Ends.bind (dropOld_ends h₁ hstage₁ hold₁ hbook₁ hformal₁) ?_
  rintro _ _ rfl
  exact hnext _ h₁ hformal₁ hbundle₁ hstage₁ rfl (hbook₁.of_eq rfl rfl) hstate₁

variable (sha256) in
def PatchRecorded (target : Tree) (state : StateFile) : Prop :=
  ∃ baseline executableSha,
    state = .whole ⟨some baseline, some ⟨computeFingerprint sha256 target, executableSha⟩⟩

variable (sha256) in
def RestoreRecorded (target : Tree) (state : StateFile) : Prop :=
  ∃ executableSha, state = .whole ⟨some ⟨computeFingerprint sha256 target, executableSha⟩, none⟩

theorem patchBody_ends {cand : Candidate} {expected : Option String} (h : Begun b target w)
    (hb : b.bundle = some installed) (hcandidate : b.candidate = some target)
    (hentries : cand.entries = computeFingerprint sha256 target) (hstate : w.fs.state = b.state)
    (hread : b.state.read = some book) :
    Ends (patchBody sha256 cand book (b.installedEntries sha256) expected) w
      (fun _ w' => Closed sha256 b target (PatchRecorded sha256 target) w')
      fun e w' => (e = .idempotent ∧ w = w') ∨
        Stops sha256 b target (PatchRecorded sha256 target) e w' := by
  refine Ends.bind (R := fun _ w' => w = w') ?_ ?_
  · exact Ends.when (fun _ => Ends.throw (.inl ⟨rfl, rfl⟩)) fun _ => rfl
  rintro _ _ rfl
  suffices hrest : Ends _ w _ (Stops sha256 b target (PatchRecorded sha256 target)) from
    hrest.mono (fun _ _ => id) fun _ _ => .inr
  refine Ends.bind (R := fun _ w' => Begun b target w' ∧ SameBook sha256 b w'.fs ∧
    ∃ now identity, w'.fs.state.read = some now ∧ now.bind (·.baseline) = some identity) ?_ ?_
  · refine Ends.when (fun hnone => ?_) fun hsome => ?_
    · have hfresh : b.state.baseline = none := (baseline_of_read hread).symm.trans hnone
      refine (establishBaseline_ends h hb hstate hfresh).mono ?_ fun _ _ => id
      rintro _ w' ⟨h', hbook, identity, hstate'⟩
      exact ⟨h', hbook, some ⟨some identity, none⟩, identity, by rw [hstate']; rfl, rfl⟩
    · obtain ⟨identity, hidentity⟩ := Option.ne_none_iff_exists'.mp hsome
      exact ⟨h, .same hstate, book, identity, hstate ▸ hread, hidentity⟩
  rintro _ w₁ ⟨h₁, hbook₁, now, identity, hread₁, hidentity⟩
  have hsrc : w₁.fs.tree .candidate = some target := h₁.candidate.trans hcandidate
  refine Ends.bind ((stageCopy_ends hsrc h₁.stage h₁.budget).mono (fun _ _ => id) ?_) ?_
  · exact fun e w' hthrown => h₁.stopped hthrown hbook₁
  rintro _ _ ⟨rfl, rfl⟩
  refine Ends.bind (R := fun _ w' => w₁.set .stage (some target) = w') ?_ ?_
  · exact Ends.when (fun hne => absurd hentries.symm hne) fun _ => rfl
  rintro _ _ rfl
  refine Ends.bind (codesignOk_ends.mono (fun _ _ => id) ?_) ?_
  · rintro e _ ⟨rest, hmet, -⟩
    exact absurd rfl (h₁.budget.met hmet.faults rfl).2.2.1
  rintro _ _ (⟨rfl, rfl⟩ | ⟨rest, -, hfaults, -⟩)
  case inr => exact absurd rfl (h₁.budget.met hfaults rfl).2
  refine Ends.bind (R := fun _ w' => w₁.set .stage (some target) = w') ?_ ?_
  · exact Ends.when nofun fun _ => rfl
  rintro _ _ rfl
  refine swapped_ends h₁ hbook₁ hb hentries
    fun w₂ h₂ hformal₂ hbundle₂ hstage₂ hold₂ hbook₂ hstate₂ => ?_
  refine Ends.bind ((readState_ends (hstate₂ ▸ hread₁)).mono (fun _ _ => id) ?_) ?_
  · rintro e _ ⟨rest, hmet, rfl⟩
    obtain ⟨rfl, hharmless⟩ := h₂.met hmet.faults rfl
    have hsame : w₂.fs.bundle = b.bundle := hbundle₂.trans (hharmless.2.2 rfl).symm
    exact ⟨hmet.exn, hformal₂, .before trivial hsame hstage₂ hold₂ hbook₂⟩
  rintro now _ ⟨rfl, rfl⟩
  have hrecorded : PatchRecorded sha256 target
      (.whole ⟨now.bind (·.baseline), some ⟨cand.entries, cand.executableSha⟩⟩) :=
    ⟨identity, cand.executableSha, by rw [hidentity, hentries]⟩
  refine Ends.bind (settle_ends h₂ hbundle₂ hstage₂ hold₂ hbook₂ hrecorded hformal₂) ?_
  exact fun _ _ hended => Ends.pure hended

theorem restoreBody_ends {baseline : Identity} (h : Begun b target w)
    (hb : b.bundle = some installed) (hbaseline : w.fs.baseline = some target)
    (hentries : baseline.entries = computeFingerprint sha256 target)
    (hstate : w.fs.state = b.state) :
    Ends (restoreBody sha256 baseline) w
      (fun _ w' => Closed sha256 b target (RestoreRecorded sha256 target) w')
      (Stops sha256 b target (RestoreRecorded sha256 target)) := by
  have hsrc : w.fs.tree .baseline = some target := hbaseline
  have hbook : SameBook sha256 b w.fs := .same hstate
  refine Ends.bind ((stageCopy_ends hsrc h.stage h.budget).mono (fun _ _ => id) ?_) ?_
  · exact fun e w' hthrown => h.stopped hthrown hbook
  rintro _ _ ⟨rfl, rfl⟩
  refine Ends.bind (R := fun _ w' => w.set .stage (some target) = w') ?_ ?_
  · exact Ends.when (fun hne => absurd hentries.symm hne) fun _ => rfl
  rintro _ _ rfl
  refine swapped_ends h hbook hb hentries
    fun w₂ h₂ hformal₂ hbundle₂ hstage₂ hold₂ hbook₂ _ => ?_
  have hrecorded : RestoreRecorded sha256 target (.whole ⟨some baseline, none⟩) :=
    ⟨baseline.executableSha, by rw [← hentries]⟩
  refine Ends.bind (settle_ends h₂ hbundle₂ hstage₂ hold₂ hbook₂ hrecorded hformal₂) ?_
  exact fun _ _ hended => Ends.pure hended

-- ---------------------------------------------------------------------------
-- The handlers
-- ---------------------------------------------------------------------------

theorem Ended.of_eq {s s' : Sandbox} (h : Ended sha256 b target recorded s)
    (hbundle : s'.bundle = s.bundle) (hstate : s'.state = s.state)
    (htree : s'.baseline = s.baseline) :
    Ended sha256 b target recorded s' := by
  cases h with
  | unchanged bundle book => exact .unchanged (hbundle.trans bundle) (book.of_eq hstate htree)
  | installed bundle book => exact .installed (hbundle.trans bundle) (hstate ▸ book)

theorem close_ends {record : Record} (h : Closes w.faults)
    (houtcome : outcomeName record.outcome ≠ "success") (hformal : Formal b target w)
    (hstage : w.fs.stage = none) (hold : w.fs.old = none)
    (hended : Ended sha256 b target recorded w.fs) :
    Ends (finishTxn record) w (fun _ w' => Closed sha256 b target recorded w') thrown := by
  refine finishTxn_ends.mono ?_ ?_
  · rintro _ w' ⟨hw', ⟨rest, hunlink⟩ | ⟨-, hfs⟩⟩
    · rw [hunlink] at h
      exact h.elim
    · refine ⟨fun t ht => hformal t (hw' ▸ ht), ?_, ?_⟩
      · rw [hfs]
        exact ⟨rfl, hstage, hold⟩
      · rw [hfs]
        exact hended.of_eq rfl rfl rfl
  · rintro e w' ⟨⟨left, rest, hmet, -⟩, -⟩
    rw [hmet.faults] at h
    exact absurd h houtcome

theorem handler_ends {op : Op} {e : Exn} (hb : b.bundle = some installed)
    (h : Stops sha256 b target recorded e w) :
    Ends (do
      rollbackToOld
      finishTxn ⟨op, .failed e.message, none⟩
      throw e : M Answer) w post fun _ w' => Closed sha256 b target recorded w' := by
  obtain ⟨-, hformal, hfailing⟩ := h
  have hname : outcomeName (.failed e.message) ≠ "success" := by simp [outcomeName]
  cases hfailing with
  | before closes bundle stage old book =>
    have hended : Ended sha256 b target recorded w.fs := .unchanged bundle book
    refine Ends.bind (rollback_none old) ?_
    rintro _ _ rfl
    refine Ends.bind (close_ends closes hname hformal stage old hended) ?_
    exact fun _ _ hclosed => Ends.throw hclosed
  | aside faults stage old book =>
    refine Ends.bind ((rollback_some (old.trans hb)).mono (fun _ _ => id) ?_) ?_
    · rintro _ _ ⟨fault, rest, left, hmet, -⟩
      exact absurd (faults.symm.trans hmet.faults) nofun
    rintro _ w₁ ⟨hfaults₁, hfs, hformal₁⟩
    have hformal₁ : Formal b target w₁ := hformal.rolled hformal₁ (.inr (.inl hb.symm))
    have hcloses₁ : Closes w₁.faults := closes_of_nil (hfaults₁.trans faults)
    have hended : Ended sha256 b target recorded w₁.fs := by
      rw [hfs]
      exact .unchanged hb.symm (book.of_eq rfl rfl)
    have hstage₁ : w₁.fs.stage = none := by
      rw [hfs]
      exact stage
    have hold₁ : w₁.fs.old = none := hfs ▸ rfl
    refine Ends.bind (close_ends hcloses₁ hname hformal₁ hstage₁ hold₁ hended) ?_
    exact fun _ _ hclosed => Ends.throw hclosed
  | after closes bundle stage old book =>
    have hended : Ended sha256 b target recorded w.fs := .installed bundle book
    refine Ends.bind (rollback_none old) ?_
    rintro _ _ rfl
    refine Ends.bind (close_ends closes hname hformal stage old hended) ?_
    exact fun _ _ hclosed => Ends.throw hclosed

-- ---------------------------------------------------------------------------
-- The calls
-- ---------------------------------------------------------------------------

def Untouched (b : Sandbox) (w : World) : Prop := w.fs = b ∧ w.formal = []

variable (sha256) in
structure PatchReady (b : Sandbox) (cand : Candidate) (book : Option Book)
    (installed : Option Entries) : Prop where
  bundle : b.bundle ≠ none
  verified : cand = b.verifyCandidate sha256
  ok : cand.ok = true
  read : b.state.read = some book
  installed : installed = b.installedEntries sha256
  residue : b.residueKinds = []

variable (sha256) in
structure PatchChecked (b : Sandbox) (running : Bool) (expected : Option String) (cand : Candidate)
    (book : Option Book) (installed : Option Entries) : Prop
    extends PatchReady sha256 b cand book installed where
  idle : running = false
  expected : expected ≠ none ∧ expected = cand.executableSha
  settled : ¬ (b.stateName sha256 book = .interrupted ∨ b.stateName sha256 book = .drifted)

theorem check_untouched {c : Check} (hw : Untouched b w) :
    Ends (check c) w (fun _ w' => w = w') fun _ w' => Untouched b w' := by
  refine check_ends.mono (fun _ _ => id) ?_
  rintro _ _ ⟨rest, -, rfl⟩
  exact hw

theorem refuse_untouched {c : Prop} [Decidable c] {msg : String} (hw : Untouched b w) :
    Ends (when c (refuse msg)) w (fun _ w' => ¬ c ∧ w = w') fun _ w' => Untouched b w' :=
  Ends.when (fun _ => Ends.throw hw) fun hc => ⟨hc, rfl⟩

theorem readState_untouched {c : Check} (hw : Untouched b w) :
    Ends (readState c) w (fun r w' => b.state.read = some r ∧ w = w')
      fun _ w' => Untouched b w' := by
  refine Ends.bind (check_untouched hw) ?_
  rintro _ _ rfl
  refine fs_bind ?_
  cases hread : w.fs.state.read with
  | none => exact Ends.throw hw
  | some book => exact Ends.pure ⟨hw.1 ▸ hread, rfl⟩

theorem residue_of_settled {s : Sandbox} {book : Option Book}
    (h : ¬ (s.stateName sha256 book = .interrupted ∨ s.stateName sha256 book = .drifted)) :
    s.residueKinds = [] := by
  by_contra hne
  exact h (.inl (if_pos hne))

theorem patchPreconditions_checked {running : Bool} {expected : Option String}
    (hw : Untouched b w) :
    Ends (patchPreconditions sha256 running expected) w
      (fun r w' => PatchChecked sha256 b running expected r.1 r.2.1 r.2.2 ∧ w = w')
      fun _ w' => Untouched b w' := by
  refine Ends.bind (check_untouched hw) ?_
  rintro _ _ rfl
  refine Ends.bind (refuse_untouched hw) ?_
  rintro _ _ ⟨hidle, rfl⟩
  refine fs_bind (Ends.bind (refuse_untouched hw) ?_)
  rintro _ _ ⟨hbundle, rfl⟩
  refine Ends.bind (check_untouched hw) ?_
  rintro _ _ rfl
  refine fs_bind (Ends.bind (refuse_untouched hw) ?_)
  rintro _ _ ⟨hok, rfl⟩
  refine Ends.bind (codesignOk_ends.mono (fun _ _ => id) ?_) ?_
  · rintro _ _ ⟨rest, -, rfl⟩
    exact hw
  rintro _ _ (⟨rfl, rfl⟩ | ⟨rest, rfl, -, rfl⟩)
  case inr => exact Ends.bind (refuse_untouched hw) fun _ _ hne => absurd rfl hne.1
  refine Ends.bind (refuse_untouched hw) ?_
  rintro _ _ ⟨-, rfl⟩
  refine Ends.bind (refuse_untouched hw) ?_
  rintro _ _ ⟨hexpected, rfl⟩
  refine Ends.bind (readState_untouched hw) ?_
  rintro book _ ⟨hread, rfl⟩
  refine Ends.bind (check_untouched hw) ?_
  rintro _ _ rfl
  refine fs_bind (Ends.bind (check_untouched hw) ?_)
  rintro _ _ rfl
  refine fs_bind (Ends.bind (refuse_untouched hw) ?_)
  rintro _ _ ⟨hsettled, rfl⟩
  obtain ⟨rfl, -⟩ := hw
  obtain ⟨hsome, hsha⟩ := not_or.mp hexpected
  refine Ends.pure ⟨⟨?_, by simpa using hidle, ⟨hsome, not_not.mp hsha⟩, hsettled⟩, rfl⟩
  exact ⟨hbundle, rfl, by simpa using hok, hread, rfl, residue_of_settled hsettled⟩

theorem patchPreconditions_ends {running : Bool} {expected : Option String} (hw : Untouched b w) :
    Ends (patchPreconditions sha256 running expected) w
      (fun r w' => PatchReady sha256 b r.1 r.2.1 r.2.2 ∧ w = w') fun _ w' => Untouched b w' :=
  (patchPreconditions_checked hw).mono (fun _ _ h => ⟨h.1.toPatchReady, h.2⟩) fun _ _ => id

theorem quiet_of_residue {s : Sandbox} (h : s.residueKinds = []) : Quiet s := by
  simp only [Sandbox.residueKinds, List.append_eq_nil_iff, ite_eq_right_iff, reduceCtorEq,
    imp_false, Bool.not_eq_true, Option.isSome_eq_false_iff, Option.isNone_iff_eq_none] at h
  exact ⟨h.1.1, h.1.2, h.2⟩

theorem verified_candidate (hok : (b.verifyCandidate sha256).ok = true) :
    ∃ target, b.candidate = some target ∧
      (b.verifyCandidate sha256).entries = computeFingerprint sha256 target := by
  unfold Sandbox.verifyCandidate at hok ⊢
  cases hcandidate : b.candidate with
  | none =>
    rw [hcandidate] at hok
    cases hok
  | some target =>
    refine ⟨target, rfl, ?_⟩
    rw [hcandidate] at hok
    cases hmanifest : b.manifest with
    | none =>
      rw [hmanifest] at hok
      cases hok
    | some manifest => rfl

/-- A transaction begins with every tree in its place, or has written nothing. -/
theorem beginTxn_ends (h : Budget b (some target) w.faults) (hw : Untouched b w)
    (hquiet : Quiet b) :
    Ends beginTxn w
      (fun _ w' => Begun b target w' ∧ w'.fs.state = b.state ∧ w'.fs.baseline = b.baseline)
      fun _ w' => Untouched b w' := by
  obtain ⟨rfl, hformal⟩ := hw
  refine spit_ends.mono ?_ ?_
  · rintro _ _ rfl
    refine ⟨⟨h, ?_, rfl, hquiet.stage, hquiet.old, rfl⟩, rfl, rfl⟩
    intro t ht
    rw [hformal] at ht
    cases ht
  · rintro e w' ⟨left, rest, hmet, -, hformal', hfs⟩
    obtain ⟨-, rfl⟩ := h.met hmet.faults rfl
    exact ⟨hfs, hformal'.trans hformal⟩

def Handled (sha256 : String → String) (b : Sandbox) (target : Option Tree)
    (recorded : Tree → StateFile → Prop) (w : World) : Prop :=
  Untouched b w ∨ ∃ tree, target = some tree ∧ Closed sha256 b tree (recorded tree) w

theorem patch_ends {running : Bool} {expected expected' : Option String}
    (h : Budget b b.candidate w.faults) (hw : Untouched b w) :
    Ends (patch sha256 running expected expected') w
      (fun _ w' => Handled sha256 b b.candidate (PatchRecorded sha256) w')
      fun _ w' => Handled sha256 b b.candidate (PatchRecorded sha256) w' := by
  refine Ends.bind ((patchPreconditions_ends hw).mono (fun _ _ => id) fun _ _ => .inl) ?_
  rintro ⟨cand, book, _⟩ _ ⟨⟨hbundle, rfl, hok, hread, rfl, hresidue⟩, rfl⟩
  obtain ⟨installed, hb⟩ := Option.ne_none_iff_exists'.mp hbundle
  obtain ⟨target, hcandidate, hentries⟩ := verified_candidate hok
  rw [hcandidate] at h
  have hquiet := quiet_of_residue hresidue
  refine Ends.bind ((beginTxn_ends h hw hquiet).mono (fun _ _ => id) fun _ _ => .inl) ?_
  rintro _ w₂ ⟨hbegun, hstate, -⟩
  have hclosed : ∀ w', Closed sha256 b target (PatchRecorded sha256 target) w' →
      Handled sha256 b b.candidate (PatchRecorded sha256) w' :=
    fun w' hclosed => .inr ⟨target, hcandidate, hclosed⟩
  refine Ends.tryCatch ((patchBody_ends hbegun hb hcandidate hentries hstate hread).mono
    (fun _ w' => hclosed w') fun _ _ => id) ?_
  rintro e w₃ (⟨rfl, rfl⟩ | hstops)
  · -- the idempotent patch: nothing but the record of it is written
    have hended : Ended sha256 b target (PatchRecorded sha256 target) w₂.fs :=
      .unchanged hbegun.bundle (.same hstate)
    rw [if_pos rfl]
    refine Ends.bind (close_ends hbegun.budget.closes (by decide) hbegun.formal hbegun.stage
      hbegun.old hended) ?_
    exact fun _ w' hw' => Ends.pure (hclosed w' hw')
  · rw [if_neg hstops.1]
    exact (handler_ends hb hstops).mono (fun _ w' => hclosed w') fun _ w' => hclosed w'

variable (sha256) in
structure RestoreReady (b : Sandbox) (baseline : Identity) : Prop where
  bundle : b.bundle ≠ none
  residue : b.residueKinds = []
  trusted : ∃ target, b.baseline = some target ∧ baseline.entries = computeFingerprint sha256 target

theorem restorePreconditions_ends {baseline : Identity} (hw : Untouched b w) :
    Ends (restorePreconditions sha256 book baseline) w
      (fun r w' => (∀ identity, r = some identity →
        identity = baseline ∧ RestoreReady sha256 b baseline) ∧ w = w')
      fun _ w' => Untouched b w' := by
  refine Ends.bind (check_untouched hw) ?_
  rintro _ _ rfl
  refine fs_bind (Ends.bind (refuse_untouched hw) ?_)
  rintro _ _ ⟨hsettled, rfl⟩
  have hresidue : w.fs.residueKinds = [] := residue_of_settled hsettled
  split
  · exact Ends.pure ⟨nofun, rfl⟩
  refine fs_bind (Ends.bind (refuse_untouched hw) ?_)
  rintro _ _ ⟨hbaseline, rfl⟩
  obtain ⟨target, htarget⟩ := Option.ne_none_iff_exists'.mp hbaseline
  have hp : w.fs.tree .baseline = some target := htarget
  refine Ends.bind ((fingerprintOf_ends hp).mono (fun _ _ => id) ?_) ?_
  · rintro _ _ ⟨rest, -, rfl⟩
    exact hw
  rintro _ _ ⟨rfl, rfl⟩
  refine Ends.bind (refuse_untouched hw) ?_
  rintro _ _ ⟨htrusted, rfl⟩
  refine Ends.bind (check_untouched hw) ?_
  rintro _ _ rfl
  refine fs_bind (Ends.bind (refuse_untouched hw) ?_)
  rintro _ _ ⟨hinstalled, rfl⟩
  obtain ⟨hlast, hinstalled⟩ := not_or.mp hinstalled
  obtain ⟨rfl, -⟩ := hw
  refine Ends.pure ⟨?_, rfl⟩
  rintro _ ⟨⟩
  refine ⟨rfl, ?_, hresidue, target, htarget, (not_not.mp htrusted).symm⟩
  intro hnone
  obtain ⟨identity, hidentity⟩ := Option.ne_none_iff_exists'.mp hlast
  rw [not_not, hidentity, Sandbox.installedEntries, hnone] at hinstalled
  cases hinstalled

theorem restore_ends {running : Bool} (h : Budget b b.baseline w.faults) (hw : Untouched b w) :
    Ends (restore sha256 running) w
      (fun _ w' => Handled sha256 b b.baseline (RestoreRecorded sha256) w')
      fun _ w' => Handled sha256 b b.baseline (RestoreRecorded sha256) w' := by
  refine Ends.bind ((check_untouched hw).mono (fun _ _ => id) fun _ _ => .inl) ?_
  rintro _ _ rfl
  refine Ends.bind ((refuse_untouched hw).mono (fun _ _ => id) fun _ _ => .inl) ?_
  rintro _ _ ⟨-, rfl⟩
  refine Ends.bind ((readState_untouched hw).mono (fun _ _ => id) fun _ _ => .inl) ?_
  rintro book _ ⟨hread, rfl⟩
  cases hbook : book.bind (·.baseline) with
  | none => exact Ends.throw (.inl hw)
  | some baseline =>
    refine Ends.bind ((restorePreconditions_ends hw).mono (fun _ _ => id) fun _ _ => .inl) ?_
    rintro r _ ⟨hready, rfl⟩
    cases r with
    | none => exact Ends.pure (.inl hw)
    | some identity =>
      obtain ⟨rfl, hbundle, hresidue, target, hbaseline, hentries⟩ := hready identity rfl
      obtain ⟨installed, hb⟩ := Option.ne_none_iff_exists'.mp hbundle
      rw [hbaseline] at h
      have hquiet := quiet_of_residue hresidue
      refine Ends.bind ((beginTxn_ends h hw hquiet).mono (fun _ _ => id) fun _ _ => .inl) ?_
      rintro _ w₂ ⟨hbegun, hstate, htree⟩
      have hclosed : ∀ w', Closed sha256 b target (RestoreRecorded sha256 target) w' →
          Handled sha256 b b.baseline (RestoreRecorded sha256) w' :=
        fun w' hclosed => .inr ⟨target, hbaseline, hclosed⟩
      refine Ends.tryCatch
        ((restoreBody_ends hbegun hb (htree.trans hbaseline) hentries hstate).mono
        (fun _ w' => hclosed w') fun _ _ => id) ?_
      intro e w₃ hstops
      exact (handler_ends hb hstops).mono (fun _ w' => hclosed w') fun _ w' => hclosed w'

end

end ShinySongTools.Bundle
