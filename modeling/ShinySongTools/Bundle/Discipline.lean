import ShinySongTools.Bundle.Atomicity

/-!
# Which states a call may leave

The bundle between calls may be edited and the candidate built anew. A patch
changes the bundle from `unmanaged` or `clean`, repeats itself from `patched`,
and from `drifted` or `interrupted` is refused; the baseline stays what it was
recorded to be. Calls may meet any failures.
-/

namespace ShinySongTools.Bundle

open Effects

variable {w w' : World} {rest : List Fault} {fault : Fault}

-- ---------------------------------------------------------------------------
-- What no failure changes
-- ---------------------------------------------------------------------------

/-- The recorded baseline and its tree, with no write of `state.edn` yet to be
torn. -/
structure Booked (identity : Identity) (tree : Option Tree) (w : World) : Prop where
  state : w.fs.state.baseline = some identity
  tree : w.fs.baseline = tree
  untorn : .write .book .torn ∉ w.faults

variable {identity : Identity} {tree : Option Tree}

theorem meets_keeps {I : World → Prop} {p : Fault → Option β}
    (h : ∀ w fault rest, w.faults = fault :: rest → I w → I (w.spend rest)) :
    Keeps I (meets p) := by
  intro w hw
  refine meets_ends.mono ?_ fun _ _ => id
  rintro _ _ (⟨-, rfl⟩ | ⟨fault, x, rest, hfaults, -, -, rfl⟩)
  · exact hw
  · exact h w fault rest hfaults hw

theorem Booked.spend (h : Booked identity tree w) (hfaults : w.faults = fault :: rest) :
    Booked identity tree (w.spend rest) :=
  ⟨h.state, h.tree, fun hmem => h.untorn (hfaults ▸ List.mem_cons_of_mem _ hmem)⟩

theorem meets_booked {p : Fault → Option β} : Keeps (Booked identity tree) (meets p) :=
  meets_keeps fun _ _ _ hfaults h => h.spend hfaults

theorem fs_booked : Keeps (Booked identity tree) fs := fun _ h => h

theorem check_booked {c : Check} : Keeps (Booked identity tree) (check c) :=
  meets_booked.bind fun _ => .when fun _ => .throw

theorem refuse_booked {c : Prop} [Decidable c] {msg : String} :
    Keeps (Booked identity tree) (when c (refuse msg)) :=
  .when fun _ => .throw

theorem codesignOk_booked {c : Check} : Keeps (Booked identity tree) (codesignOk c) :=
  check_booked.bind fun _ => meets_booked.bind fun _ => .pure

theorem setTree_booked {p : Path} {t : Option Tree} (hp : p ≠ .baseline) :
    Keeps (Booked identity tree) (setTree p t) := by
  refine .modify fun w h => ?_
  cases p with
  | baseline => exact absurd rfl hp
  | _ => exact ⟨h.state, h.tree, h.untorn⟩

theorem copyTree_booked {src dst : Path} (hdst : dst ≠ .baseline) :
    Keeps (Booked identity tree) (copyTree src dst) := by
  refine meets_booked.bind fun met => ?_
  cases met with
  | some => exact (setTree_booked hdst).bind fun _ => .throw
  | none =>
    refine fs_booked.bind fun s => ?_
    cases s.tree src with
    | none => exact .throw
    | some => exact fs_booked.bind fun _ => setTree_booked hdst

theorem atomicMove_booked {src dst : Path} (hsrc : src ≠ .baseline) (hdst : dst ≠ .baseline) :
    Keeps (Booked identity tree) (atomicMove src dst) := by
  refine meets_booked.bind fun _ => Keeps.bind (.when fun _ => .throw) fun _ => ?_
  refine fs_booked.bind fun s => fs_booked.bind fun s' => ?_
  split
  · exact (setTree_booked hsrc).bind fun _ => setTree_booked hdst
  · exact .throw

theorem deleteTree_booked {p : Path} (hp : p ≠ .baseline) :
    Keeps (Booked identity tree) (deleteTree p) := by
  refine fs_booked.bind fun s => .when fun _ => meets_booked.bind fun met => ?_
  cases met with
  | some => exact (setTree_booked hp).bind fun _ => .throw
  | none => exact setTree_booked hp

theorem rollbackToOld_booked : Keeps (Booked identity tree) rollbackToOld :=
  fs_booked.bind fun _ => .when fun _ =>
    Keeps.bind (deleteTree_booked (by decide)) fun _ => atomicMove_booked (by decide) (by decide)

theorem fingerprintOf_booked {sha256 : String → String} {c : Check} {p : Path} :
    Keeps (Booked identity tree) (fingerprintOf sha256 c p) := by
  refine check_booked.bind fun _ => fs_booked.bind fun s => ?_
  cases s.tree p with
  | some => exact .pure
  | none => exact .pure

theorem spit_booked {f : File} {written torn : Sandbox → Sandbox}
    (hwritten : ∀ s, (written s).state = s.state ∧ (written s).baseline = s.baseline)
    (htorn : ∀ s, (torn s).state = s.state ∧ (torn s).baseline = s.baseline) :
    Keeps (Booked identity tree) (spit f written torn) := by
  have hfs : ∀ (w : World) (s : Sandbox), s.state = w.fs.state ∧ s.baseline = w.fs.baseline →
      Booked identity tree w → Booked identity tree { w with fs := s } := by
    intro w s hs h
    exact ⟨hs.1 ▸ h.state, hs.2.trans h.tree, h.untorn⟩
  refine meets_booked.bind fun met => ?_
  cases met with
  | none => exact .modify fun w => hfs w _ (hwritten w.fs)
  | some left =>
    refine Keeps.bind (.modify fun w => ?_) fun _ => .throw
    cases left with
    | untouched => exact hfs w _ ⟨rfl, rfl⟩
    | torn => exact hfs w _ (htorn w.fs)
    | written => exact hfs w _ (hwritten w.fs)

theorem beginTxn_booked : Keeps (Booked identity tree) beginTxn :=
  spit_booked (fun _ => ⟨rfl, rfl⟩) fun _ => ⟨rfl, rfl⟩

theorem finishTxn_booked {record : Record} : Keeps (Booked identity tree) (finishTxn record) := by
  refine Keeps.bind (spit_booked (fun _ => ⟨rfl, rfl⟩) fun _ => ⟨rfl, rfl⟩) fun _ => ?_
  exact meets_booked.bind fun _ => .when fun _ => .modify fun _ h => ⟨h.state, h.tree, h.untorn⟩

/-- A book with the same baseline is written whole, or not at all. -/
theorem writeState_booked {book : Book} (hbook : book.baseline = some identity) :
    Keeps (Booked identity tree) (writeState .book book) := by
  intro w h
  refine spit_ends.mono ?_ ?_
  · rintro _ _ rfl
    exact ⟨hbook, h.tree, h.untorn⟩
  · rintro e w' ⟨left, rest, hmet, hfaults, -, hfs⟩
    have hrest : .write .book .torn ∉ w'.faults := hfaults ▸ (h.spend hmet.faults).untorn
    cases left with
    | untouched => exact ⟨by rw [hfs]; exact h.state, by rw [hfs]; exact h.tree, hrest⟩
    | torn => exact absurd (hmet.faults ▸ List.mem_cons_self) h.untorn
    | written => exact ⟨by rw [hfs]; exact hbook, by rw [hfs]; exact h.tree, hrest⟩

theorem settle_booked {book : Book} {record : Record} (hbook : book.baseline = some identity) :
    Keeps (Booked identity tree) (settle book record) :=
  (writeState_booked hbook).bind fun _ => finishTxn_booked.bind fun _ =>
    Keeps.bind (deleteTree_booked (by decide)) fun _ => deleteTree_booked (by decide)

section

variable {sha256 : String → String}

theorem stageCopy_booked {src : Path} : Keeps (Booked identity tree) (stageCopy sha256 src) :=
  Keeps.bind (deleteTree_booked (by decide)) fun _ =>
    Keeps.bind (copyTree_booked (by decide)) fun _ => fingerprintOf_booked

theorem swapAndVerify_booked {expected : Entries} :
    Keeps (Booked identity tree) (swapAndVerify sha256 expected) := by
  refine fs_booked.bind fun _ => Keeps.bind (.when fun _ => ?_) fun _ => ?_
  · exact atomicMove_booked (by decide) (by decide)
  refine Keeps.tryCatch ?_ fun e => ?_
  · refine Keeps.bind (atomicMove_booked (by decide) (by decide)) fun _ => ?_
    refine fingerprintOf_booked.bind fun _ => Keeps.bind (.when fun _ => .throw) fun _ => ?_
    exact codesignOk_booked.bind fun _ => .when fun _ => .throw
  · refine rollbackToOld_booked.bind fun _ => Keeps.bind (deleteTree_booked (by decide)) fun _ => ?_
    exact .throw

theorem readState_booked {c : Check} (h : Booked identity tree w) :
    Ends (readState c) w
      (fun book w' => book.bind (·.baseline) = some identity ∧ Booked identity tree w')
      fun _ w' => Booked identity tree w' := by
  refine (check_booked w h).bind fun _ w' h' => fs_bind ?_
  cases hread : w'.fs.state.read with
  | none => exact Ends.throw h'
  | some book => exact Ends.pure ⟨(baseline_of_read hread).trans h'.state, h'⟩

theorem patchBody_booked {cand : Candidate} {book : Option Book} {installed : Option Entries}
    {expected : Option String} (hbook : book.bind (·.baseline) = some identity) :
    Keeps (Booked identity tree) (patchBody sha256 cand book installed expected) := by
  refine Keeps.bind (.when fun _ => .throw) fun _ => ?_
  refine Keeps.bind (.when fun hnone => absurd (hbook.symm.trans hnone) nofun) fun _ => ?_
  refine stageCopy_booked.bind fun _ => refuse_booked.bind fun _ => ?_
  refine codesignOk_booked.bind fun _ => refuse_booked.bind fun _ => ?_
  refine swapAndVerify_booked.bind fun _ => ?_
  refine Keeps.bind (deleteTree_booked (by decide)) fun _ w h => ?_
  refine (readState_booked h).bind fun now w' ⟨hnow, h'⟩ => ?_
  exact ((settle_booked hnow).bind fun _ => .pure) w' h'

theorem restoreBody_booked : Keeps (Booked identity tree) (restoreBody sha256 identity) := by
  refine stageCopy_booked.bind fun _ => refuse_booked.bind fun _ => ?_
  refine swapAndVerify_booked.bind fun _ => ?_
  exact Keeps.bind (deleteTree_booked (by decide)) fun _ => (settle_booked rfl).bind fun _ => .pure

theorem restorePreconditions_booked {book : Option Book} {baseline : Identity}
    (h : Booked identity tree w) :
    Ends (restorePreconditions sha256 book baseline) w
      (fun r w' => (r = none ∨ r = some baseline) ∧ Booked identity tree w')
      fun _ w' => Booked identity tree w' := by
  refine (check_booked w h).bind fun _ w h => fs_bind ((refuse_booked w h).bind fun _ w h => ?_)
  split
  · exact Ends.pure ⟨.inl rfl, h⟩
  · refine fs_bind ((refuse_booked w h).bind fun _ w h => ?_)
    refine (fingerprintOf_booked w h).bind fun _ w h => ?_
    refine (refuse_booked w h).bind fun _ w h => (check_booked w h).bind fun _ w h => fs_bind ?_
    exact (refuse_booked w h).bind fun _ w h => Ends.pure ⟨.inr rfl, h⟩

theorem patchPreconditions_booked {running : Bool} {expected : Option String}
    (h : Booked identity tree w) :
    Ends (patchPreconditions sha256 running expected) w
      (fun r w' => r.2.1.bind (·.baseline) = some identity ∧ Booked identity tree w')
      fun _ w' => Booked identity tree w' := by
  refine (check_booked w h).bind fun _ w h => (refuse_booked w h).bind fun _ w h => ?_
  refine fs_bind ((refuse_booked w h).bind fun _ w h => (check_booked w h).bind fun _ w h => ?_)
  refine fs_bind ((refuse_booked w h).bind fun _ w h => ?_)
  refine (codesignOk_booked w h).bind fun _ w h => ?_
  refine (refuse_booked w h).bind fun _ w h => (refuse_booked w h).bind fun _ w h => ?_
  refine (readState_booked h).bind fun book w ⟨hbook, h⟩ => (check_booked w h).bind fun _ w h => ?_
  refine fs_bind ((check_booked w h).bind fun _ w h => fs_bind ?_)
  exact (refuse_booked w h).bind fun _ w h => Ends.pure ⟨hbook, h⟩

/-- The baseline outlives every patch. -/
theorem patch_booked {running : Bool} {expected expected' : Option String} :
    Keeps (Booked identity tree) (patch sha256 running expected expected') := by
  intro w h
  refine (patchPreconditions_booked h).bind fun ⟨cand, book, installed⟩ w ⟨hbook, h⟩ => ?_
  refine (beginTxn_booked w h).bind fun _ w h => ?_
  refine ((patchBody_booked hbook).tryCatch fun e => ?_) w h
  split
  · exact finishTxn_booked.bind fun _ => .pure
  · exact rollbackToOld_booked.bind fun _ => finishTxn_booked.bind fun _ => .throw

theorem restore_booked {running : Bool} :
    Keeps (Booked identity tree) (restore sha256 running) := by
  intro w h
  refine (check_booked w h).bind fun _ w h => (refuse_booked w h).bind fun _ w h => ?_
  refine (readState_booked h).bind fun book w ⟨hbook, h⟩ => ?_
  rw [hbook]
  refine (restorePreconditions_booked h).bind ?_
  rintro _ w ⟨rfl | rfl, h⟩
  · exact Ends.pure h
  · refine (beginTxn_booked w h).bind fun _ w h => ?_
    refine (restoreBody_booked.tryCatch fun e => ?_) w h
    exact rollbackToOld_booked.bind fun _ => finishTxn_booked.bind fun _ => .throw

-- ---------------------------------------------------------------------------
-- The preconditions
-- ---------------------------------------------------------------------------

/-- What the preconditions of `patch!` may meet. -/
def Fault.early : Fault → Bool
  | .throws c =>
    c ∈ [.gameRunning, .candidate, .candidateSignature, .book, .status, .installed]
  | .unsigned c => c = .candidateSignature
  | _ => false

/-- Where nothing fails and the book reads, `e` is a refusal. -/
def Refuses (w : World) (e : Exn) : Prop :=
  w.faults = [] → w.fs.state.read ≠ none → ∃ msg, e = .refused msg

theorem meets_one_unmet {f : Fault} :
    Ends (meets fun fault => if fault = f then some () else none) w
      (fun r w' => (r = none ∧ w.faults.head? ≠ some f ∧ w = w') ∨ (r = some () ∧ w.faults ≠ []))
      thrown := by
  refine Ends.get_bind ?_
  cases hfaults : w.faults with
  | nil => exact Ends.pure (.inl ⟨rfl, nofun, rfl⟩)
  | cons fault rest =>
    by_cases hf : fault = f
    · simp only [if_pos hf]
      exact Ends.set_bind (Ends.pure (.inr ⟨rfl, nofun⟩))
    · simp only [if_neg hf]
      exact Ends.pure (.inl ⟨rfl, fun hhead => hf (Option.some.inj hhead), rfl⟩)

theorem check_unmet {c : Check} :
    Ends (check c) w (fun _ w' => w.faults.head? ≠ some (.throws c) ∧ w = w')
      fun e _ => Refuses w e := by
  refine meets_one_unmet.bind ?_
  rintro _ _ (⟨rfl, hhead, rfl⟩ | ⟨rfl, hfaults⟩)
  · exact Ends.when nofun fun _ => ⟨hhead, rfl⟩
  · exact Ends.when (fun _ => Ends.throw fun hnil => absurd hnil hfaults) fun hne => absurd rfl hne

theorem refuse_unmet {c : Prop} [Decidable c] {msg : String} :
    Ends (when c (refuse msg)) w (fun _ w' => ¬ c ∧ w = w') fun e _ => Refuses w' e :=
  Ends.when (fun _ => Ends.throw fun _ _ => ⟨msg, rfl⟩) fun hc => ⟨hc, rfl⟩

theorem codesignOk_unmet {c : Check} :
    Ends (codesignOk c) w
      (fun r w' => (r = true ∧ w.faults.head? ≠ some (.throws c) ∧
        w.faults.head? ≠ some (.unsigned c) ∧ w = w') ∨ r = false)
      fun e _ => Refuses w e := by
  refine check_unmet.bind ?_
  rintro _ _ ⟨hthrows, rfl⟩
  refine meets_one_unmet.bind ?_
  rintro _ _ (⟨rfl, hhead, rfl⟩ | ⟨rfl, -⟩)
  · exact Ends.pure (.inl ⟨rfl, hthrows, hhead, rfl⟩)
  · exact Ends.pure (.inr rfl)

theorem readState_unmet {c : Check} :
    Ends (readState c) w (fun _ w' => w.faults.head? ≠ some (.throws c) ∧ w = w')
      fun e _ => Refuses w e := by
  refine check_unmet.bind ?_
  rintro _ _ ⟨hthrows, rfl⟩
  refine fs_bind ?_
  cases hread : w.fs.state.read with
  | none => exact Ends.throw fun _ hne => absurd hread hne
  | some book => exact Ends.pure ⟨hthrows, rfl⟩

theorem patchPreconditions_unmet {running : Bool} {expected : Option String} :
    Ends (patchPreconditions sha256 running expected) w
      (fun _ _ => ∀ fault ∈ w.faults.head?, fault.early = false) fun e _ => Refuses w e := by
  refine check_unmet.bind ?_
  rintro _ _ ⟨hrunning, rfl⟩
  refine refuse_unmet.bind ?_
  rintro _ _ ⟨-, rfl⟩
  refine fs_bind (refuse_unmet.bind ?_)
  rintro _ _ ⟨-, rfl⟩
  refine check_unmet.bind ?_
  rintro _ _ ⟨hcandidate, rfl⟩
  refine fs_bind (refuse_unmet.bind ?_)
  rintro _ _ ⟨-, rfl⟩
  refine codesignOk_unmet.bind ?_
  rintro _ _ (⟨rfl, hthrows, hunsigned, rfl⟩ | rfl)
  case inr => exact refuse_unmet.bind fun _ _ hne => absurd rfl hne.1
  refine refuse_unmet.bind ?_
  rintro _ _ ⟨-, rfl⟩
  refine refuse_unmet.bind ?_
  rintro _ _ ⟨-, rfl⟩
  refine readState_unmet.bind ?_
  rintro _ _ ⟨hbook, rfl⟩
  refine check_unmet.bind ?_
  rintro _ _ ⟨hstatus, rfl⟩
  refine fs_bind (check_unmet.bind ?_)
  rintro _ _ ⟨hinstalled, rfl⟩
  refine fs_bind (refuse_unmet.bind ?_)
  rintro _ _ -
  refine Ends.pure fun fault hfault => ?_
  rw [Option.mem_def] at hfault
  cases fault with
  | throws c => cases c <;> first | rfl | contradiction
  | unsigned c => cases c <;> first | rfl | contradiction
  | _ => rfl

-- ---------------------------------------------------------------------------
-- One patch
-- ---------------------------------------------------------------------------

variable (sha256) in
def Sandbox.installedExecutable (s : Sandbox) : Option String :=
  (s.installedEntries sha256).bind (executableSha · "AKInterface")

variable (sha256) in
def Opens (b : Sandbox) (expected : Option String) : Prop :=
  b.status sha256 = some .clean ∨
    b.status sha256 = some .unmanaged ∧ expected ≠ none ∧ expected = b.installedExecutable sha256

/-- The call throws, and where nothing fails it refuses. -/
def Refused (faults : List Fault) (r : Except Exn Answer) : Prop :=
  ∃ e, r = .error e ∧ (faults = [] → ∃ msg, e = .refused msg)

variable (sha256) in
/-- The call succeeds because candidate, installed bundle and last install are
one. -/
def Repeated (b : Sandbox) (r : Except Exn Answer) : Prop :=
  (∃ answer, r = .ok answer ∧ answer.idempotent = true) ∧
    b.installedEntries sha256 = some (b.verifyCandidate sha256).entries ∧
    b.state.lastInstall.map Identity.entries = b.installedEntries sha256

variable (sha256) in
/-- A patch from `b` that met `faults`, returned or threw `r` and left `w`. -/
structure PatchDiscipline (b : Sandbox) (expected : Option String) (faults : List Fault)
    (r : Except Exn Answer) (w : World) : Prop where
  installs : ¬ Opens sha256 b expected → w.fs.bundle = b.bundle ∧ w.formal = []
  patched : b.status sha256 = some .patched → (Refused faults r ∨ Repeated sha256 b r) ∧
    ∃ current history, w.fs = { b with current, history }
  stopped : b.status sha256 = some .drifted ∨ b.status sha256 = some .interrupted →
    Refused faults r ∧ w.fs = b

variable (sha256) in
/-- The patch is called over another patch: the preconditions hold, and the
candidate is not what is installed. -/
structure Switches (b : Sandbox) (running : Bool) (expected : Option String) (faults : List Fault) :
    Prop where
  patched : b.status sha256 = some .patched
  idle : running = false
  ok : (b.verifyCandidate sha256).ok = true
  expected : expected ≠ none ∧ expected = (b.verifyCandidate sha256).executableSha
  update : b.installedEntries sha256 ≠ some (b.verifyCandidate sha256).entries
  met : ∀ fault ∈ faults.head?, fault.early = false

variable {b : Sandbox} {expected : Option String} {book : Option Book}

theorem status_of_read (hread : b.state.read = some book) :
    b.status sha256 = some (b.stateName sha256 book) := by
  rw [Sandbox.status, hread]
  rfl

theorem read_of_status {name : StateName} (h : b.status sha256 = some name) :
    b.state.read ≠ none := by
  intro hnone
  rw [Sandbox.status, hnone] at h
  cases h

theorem lastInstall_of_read (hread : b.state.read = some book) :
    book.bind (·.lastInstall) = b.state.lastInstall := by
  cases hstate : b.state with
  | absent =>
    rw [hstate] at hread
    cases hread
    rfl
  | torn =>
    rw [hstate] at hread
    cases hread
  | whole =>
    rw [hstate] at hread
    cases hread
    rfl

/-- What the state that lets a call begin says of the book. -/
inductive Named (sha256 : String → String) (b : Sandbox) (book : Option Book) : StateName → Prop
  | unmanaged (fresh : book.bind (·.baseline) = none) : Named sha256 b book .unmanaged
  | clean : Named sha256 b book .clean
  | patched (last : Identity) (recorded : book.bind (·.lastInstall) = some last)
    (installed : some last.entries = b.installedEntries sha256) : Named sha256 b book .patched

theorem named_of_settled (h : ¬ (b.stateName sha256 book = .interrupted ∨
    b.stateName sha256 book = .drifted)) : Named sha256 b book (b.stateName sha256 book) := by
  have hresidue := residue_of_settled h
  simp only [Sandbox.stateName, hresidue, ne_eq, not_true_eq_false, if_false] at h ⊢
  cases hbaseline : book.bind (·.baseline) with
  | none => exact .unmanaged hbaseline
  | some baseline =>
    simp only [hbaseline] at h ⊢
    by_cases hclean : some baseline.entries = b.installedEntries sha256
    · rw [if_pos hclean]
      exact .clean
    rw [if_neg hclean] at h ⊢
    cases hlast : book.bind (·.lastInstall) with
    | none =>
      simp only [hlast] at h
      exact absurd (.inr trivial) h
    | some last =>
      simp only [hlast] at h ⊢
      by_cases hinstalled : some last.entries = b.installedEntries sha256
      · rw [if_pos hinstalled]
        exact .patched last hlast hinstalled
      · rw [if_neg hinstalled] at h
        exact absurd (.inr rfl) h

/-- Without the digest of what is installed there is no first patch. -/
theorem establishBaseline_refused {installed : Option Entries}
    (hne : ¬ (expected ≠ none ∧ expected = w.fs.installedExecutable sha256)) :
    Ends (establishBaseline sha256 expected installed) w (fun _ _ => False)
      fun e w' => e ≠ .idempotent ∧ w'.fs = w.fs ∧ w'.formal = w.formal := by
  refine Ends.bind (R := fun _ w' => expected ≠ none ∧ w = w') ?_ ?_
  · exact Ends.when (fun _ => Ends.throw ⟨nofun, rfl, rfl⟩) fun hsome => ⟨hsome, rfl⟩
  rintro _ _ ⟨hsome, rfl⟩
  refine Ends.bind (check_ends.mono (fun _ _ => id) ?_) ?_
  · rintro e _ ⟨rest, hmet, rfl⟩
    exact ⟨hmet.exn, rfl, rfl⟩
  rintro _ _ rfl
  refine fs_bind (Ends.bind (R := fun _ w' => w = w') ?_ ?_)
  · exact Ends.when (fun _ => Ends.throw ⟨nofun, rfl, rfl⟩) fun _ => rfl
  rintro _ _ rfl
  refine Ends.bind (R := fun _ _ => False) ?_ fun _ _ => False.elim
  refine Ends.when (fun _ => Ends.throw ⟨nofun, rfl, rfl⟩) fun heq => hne ⟨hsome, ?_⟩
  exact not_not.mp heq

/-- The sandbox is `b`, but for what a transaction writes of itself. -/
def Spared (b : Sandbox) (w : World) : Prop :=
  (∃ current history, w.fs = { b with current, history }) ∧ w.formal = []

theorem finishTxn_spared {record : Record} (h : Spared b w) :
    Ends (finishTxn record) w (fun _ w' => Spared b w')
      fun _ w' => Spared b w' ∧ w.faults ≠ [] := by
  obtain ⟨⟨current, history, hfs⟩, hformal⟩ := h
  refine Ends.bind (spit_ends.mono (fun _ _ => id) ?_) ?_
  · rintro e w' ⟨left, rest, hmet, -, hformal', hfs'⟩
    refine ⟨⟨?_, hformal'.trans hformal⟩, fun hnil => absurd (hnil.symm.trans hmet.faults) nofun⟩
    cases left with
    | written => exact ⟨current, history ++ [record], by rw [hfs', hfs]⟩
    | _ => exact ⟨current, history, hfs'.trans hfs⟩
  rintro _ _ rfl
  refine meets_ends.bind ?_
  rintro _ _ (⟨rfl, rfl⟩ | ⟨fault, x, rest, -, -, rfl, rfl⟩)
  · refine Ends.when (fun _ => ⟨⟨false, history ++ [record], ?_⟩, hformal⟩) fun h => absurd rfl h
    rw [hfs]
  · refine Ends.when nofun fun _ => ⟨⟨current, history ++ [record], ?_⟩, hformal⟩
    simp only [World.spend, hfs]

theorem beginTxn_spared (hw : Untouched b w) :
    Ends beginTxn w (fun _ w' => w' = { w with fs := { w.fs with current := true } })
      fun _ w' => Spared b w' ∧ w.faults ≠ [] := by
  obtain ⟨rfl, hformal⟩ := hw
  refine spit_ends.mono (fun _ _ => id) ?_
  rintro e w' ⟨left, rest, hmet, -, hformal', hfs⟩
  refine ⟨⟨?_, hformal'.trans hformal⟩, fun hnil => absurd (hnil.symm.trans hmet.faults) nofun⟩
  cases left with
  | untouched => exact ⟨_, _, hfs⟩
  | _ => exact ⟨true, _, hfs⟩

/-- A first patch without the digest fails before anything is copied. -/
theorem patchBody_refused {cand : Candidate} {installed : Option Entries}
    {expected' : Option String}
    (hsame : ¬ ((book.bind (·.lastInstall)).isSome ∧
      (book.bind (·.lastInstall)).map Identity.entries = installed ∧ some cand.entries = installed))
    (hfresh : book.bind (·.baseline) = none)
    (hne : ¬ (expected' ≠ none ∧ expected' = w.fs.installedExecutable sha256)) :
    Ends (patchBody sha256 cand book installed expected') w (fun _ _ => False)
      fun e w' => e ≠ .idempotent ∧ w'.fs = w.fs ∧ w'.formal = w.formal := by
  refine Ends.bind (R := fun _ w' => w = w') ?_ ?_
  · exact Ends.when (fun h => absurd h hsame) fun _ => rfl
  rintro _ _ rfl
  refine Ends.bind (R := fun _ _ => False) ?_ fun _ _ => False.elim
  exact Ends.when (fun _ => establishBaseline_refused hne) fun h => absurd hfresh h

/-- The handler of a call that has moved nothing. -/
theorem handler_spared {op : Op} {e : Exn} (h : Spared b w) (hold : w.fs.old = none) :
    Ends (do
      rollbackToOld
      finishTxn ⟨op, .failed e.message, none⟩
      throw e : M Answer) w post fun _ w' => Spared b w' := by
  refine Ends.bind (rollback_none hold) ?_
  rintro _ _ rfl
  refine Ends.bind ((finishTxn_spared h).mono (fun _ _ => id) fun _ _ h => h.1) ?_
  exact fun _ _ h => Ends.throw h

theorem patch_discipline {running : Bool} {expected' : Option String} (hw : Untouched b w)
    (hswitches : ¬ Switches sha256 b running expected w.faults) :
    Ends (patch sha256 running expected expected') w
      (fun answer w' => PatchDiscipline sha256 b expected' w.faults (.ok answer) w')
      fun e w' => PatchDiscipline sha256 b expected' w.faults (.error e) w' := by
  have hfs : w.fs = b := hw.1
  refine Ends.bind (((patchPreconditions_checked hw).and patchPreconditions_unmet).mono
    (fun _ _ => id) ?_) ?_
  · rintro e w' ⟨⟨rfl, hformal⟩, hrefuses⟩
    have hrefused : ∀ {name}, w'.fs.status sha256 = some name → Refused w.faults (.error e) :=
      fun hname => ⟨e, rfl, fun hnil => hrefuses hnil (hfs ▸ read_of_status hname)⟩
    exact ⟨fun _ => ⟨rfl, hformal⟩, fun hname => ⟨.inl (hrefused hname), _, _, rfl⟩,
      fun hname => ⟨hname.elim hrefused hrefused, rfl⟩⟩
  rintro ⟨cand, book, _⟩ _ ⟨⟨hchecked, rfl⟩, hmet⟩
  obtain ⟨⟨hbundle, rfl, hok, hread, rfl, hresidue⟩, hidle, hexpected, hsettled⟩ := hchecked
  have hstatus : b.status sha256 = some (b.stateName sha256 book) := status_of_read hread
  have hgoing : ¬ (b.status sha256 = some .drifted ∨ b.status sha256 = some .interrupted) := by
    rw [hstatus, Option.some.injEq, Option.some.injEq]
    exact fun h => hsettled h.symm
  have hspared : ∀ {r w'}, (Refused w.faults r ∨ Repeated sha256 b r) → Spared b w' →
      PatchDiscipline sha256 b expected' w.faults r w' := by
    rintro r w' hr ⟨⟨current, history, hfs'⟩, hformal⟩
    exact ⟨fun _ => ⟨hfs' ▸ rfl, hformal⟩, fun _ => ⟨hr, _, _, hfs'⟩, fun h => absurd h hgoing⟩
  have hfailed : ∀ {e w'}, Spared b w' ∧ w.faults ≠ [] →
      PatchDiscipline sha256 b expected' w.faults (.error e) w' :=
    fun h => hspared (.inl ⟨_, rfl, fun hnil => absurd hnil h.2⟩) h.1
  refine Ends.bind ((beginTxn_spared hw).mono (fun _ _ => id) fun _ _ => hfailed) ?_
  rintro _ _ rfl
  have hbegun : Spared b { w with fs := { w.fs with current := true } } :=
    ⟨⟨true, b.history, hfs ▸ rfl⟩, hw.2⟩
  by_cases hsame : (book.bind (·.lastInstall)).isSome ∧
      (book.bind (·.lastInstall)).map Identity.entries = b.installedEntries sha256 ∧
      some (b.verifyCandidate sha256).entries = b.installedEntries sha256
  · -- nothing is to be installed
    refine Ends.tryCatch (C := fun e w' => e = .idempotent ∧
      w' = { w with fs := { w.fs with current := true } }) ?_ ?_
    · refine Ends.bind (R := fun _ _ => False) ?_ fun _ _ => False.elim
      exact Ends.when (fun _ => Ends.throw ⟨rfl, rfl⟩) fun hne => absurd hsame hne
    rintro _ _ ⟨rfl, rfl⟩
    rw [if_pos rfl]
    refine Ends.bind ((finishTxn_spared hbegun).mono (fun _ _ => id) fun _ _ => hfailed) ?_
    intro _ w' hw'
    refine Ends.pure (hspared (.inr ⟨⟨_, rfl, rfl⟩, hsame.2.2.symm, ?_⟩) hw')
    exact (lastInstall_of_read hread) ▸ hsame.2.1
  have hopened : ∀ {r w'}, Opens sha256 b expected' → b.status sha256 ≠ some .patched →
      PatchDiscipline sha256 b expected' w.faults r w' :=
    fun hopens hne => ⟨absurd hopens, fun h => absurd h hne, fun h => absurd h hgoing⟩
  have hnamed := named_of_settled hsettled
  cases hname : b.stateName sha256 book <;> rw [hname] at hnamed hstatus <;> cases hnamed
  case patched last hlast hinstalled =>
    refine absurd ⟨hstatus, hidle, hok, hexpected, fun hsome => hsame ?_, hmet⟩ hswitches
    rw [hlast]
    exact ⟨rfl, hinstalled, hsome.symm⟩
  case clean =>
    have hne : b.status sha256 ≠ some .patched := by rw [hstatus]; nofun
    exact Ends.of_all (fun _ _ => hopened (.inl hstatus) hne) fun _ _ => hopened (.inl hstatus) hne
  case unmanaged hfresh =>
    have hne : b.status sha256 ≠ some .patched := by rw [hstatus]; nofun
    by_cases hmatches : expected' ≠ none ∧ expected' = b.installedExecutable sha256
    · have hopens : Opens sha256 b expected' := .inr ⟨hstatus, hmatches⟩
      exact Ends.of_all (fun _ _ => hopened hopens hne) fun _ _ => hopened hopens hne
    have hunmatched : ¬ (expected' ≠ none ∧
        expected' = Sandbox.installedExecutable sha256 { w.fs with current := true }) := by
      rw [hfs]
      exact hmatches
    have hbody := patchBody_refused (w := { w with fs := { w.fs with current := true } })
      hsame hfresh hunmatched
    refine Ends.tryCatch (hbody.mono (fun _ _ => False.elim) fun _ _ => id) ?_
    rintro e w' ⟨he, hfs', hformal⟩
    rw [if_neg he]
    have hw' : Spared b w' := ⟨⟨true, b.history, by rw [hfs', hfs]⟩, hformal.trans hw.2⟩
    have hold : w'.fs.old = none := by
      rw [hfs', hfs]
      exact (quiet_of_residue hresidue).old
    refine (handler_spared hw' hold).mono (fun _ _ => id) ?_
    rintro e w'' ⟨⟨_, _, hfs''⟩, hformal''⟩
    exact ⟨fun _ => ⟨hfs'' ▸ rfl, hformal''⟩, fun h => absurd h hne, fun h => absurd h hgoing⟩

end

-- ---------------------------------------------------------------------------
-- Runs
-- ---------------------------------------------------------------------------

namespace Discipline

inductive Call where
  | patch (running : Bool) (expectedExecutableSha expectedInstalledExecutableSha : Option String)
  | restore (running : Bool)
  deriving DecidableEq

/-- What is kept of the last call: where it began, what it met, how it ended and
what the formal path held during it. -/
structure Visit where
  call : Call
  before : Sandbox
  faults : List Fault
  result : Except Exn Answer
  formal : List (Option Tree)

structure Session where
  fs : Sandbox
  last : Option Visit

inductive Action where
  | call (c : Call) (faults : List Fault)
  /-- The candidate is built anew, or removed. -/
  | rebuild (candidate : Option Tree) (manifest : Option Manifest)
  /-- The installed bundle is changed from outside. -/
  | edit (bundle : Option Tree)

section

variable (sha256 : String → String)

def Call.run : Call → M Answer
  | .patch running expected expected' => Bundle.patch sha256 running expected expected'
  | .restore running => Bundle.restore sha256 running

/-- A call meets every failure it comes with. -/
def step (s : Session) : Action → Option Session
  | .call c faults =>
    match (c.run sha256).run.run ⟨s.fs, faults, []⟩ with
    | (r, w) => if w.faults = [] then some ⟨w.fs, some ⟨c, s.fs, faults, r, w.formal⟩⟩ else none
  | .rebuild candidate manifest => some ⟨{ s.fs with candidate, manifest }, none⟩
  | .edit bundle => some ⟨{ s.fs with bundle }, none⟩

/-- The last call, where it was a patch, kept to the states. -/
def Disciplined (s : Session) : Prop :=
  ∀ visit, s.last = some visit →
    match visit.call with
    | .patch _ _ expected' =>
      PatchDiscipline sha256 visit.before expected' visit.faults visit.result
        ⟨s.fs, [], visit.formal⟩
    | .restore _ => True

/-- No patch over another patch, and no write of the final `state.edn` that is
torn. -/
def Orderly (s : Session) : Action → Prop
  | .call c faults =>
    .write .book .torn ∉ faults ∧
      match c with
      | .patch running expected _ => ¬ Switches sha256 s.fs running expected faults
      | .restore _ => True
  | .rebuild .. => True
  | .edit _ => True

end

/-- The baseline and its tree are these. -/
def Based (identity : Identity) (tree : Option Tree) (s : Session) : Prop :=
  s.fs.state.baseline = some identity ∧ s.fs.baseline = tree

variable {sha256 : String → String} {s s' : Session} {a : Action} {c : Call} {faults : List Fault}

theorem step_call {post : Answer → World → Prop} {thrown : Exn → World → Prop}
    (hs : step sha256 s (.call c faults) = some s')
    (h : Ends (c.run sha256) ⟨s.fs, faults, []⟩ post thrown) :
    ∃ r formal, s' = ⟨s'.fs, some ⟨c, s.fs, faults, r, formal⟩⟩ ∧
      match r with
      | .ok answer => post answer ⟨s'.fs, [], formal⟩
      | .error e => thrown e ⟨s'.fs, [], formal⟩ := by
  unfold Ends at h
  simp only [step] at hs
  cases hrun : (c.run sha256).run.run ⟨s.fs, faults, []⟩ with
  | mk r w =>
    rw [hrun] at h hs
    simp only [Option.ite_none_right_eq_some, Option.some.injEq] at hs
    obtain ⟨hnil, rfl⟩ := hs
    have hw : (⟨w.fs, [], w.formal⟩ : World) = w := by rw [← hnil]
    refine ⟨r, w.formal, rfl, ?_⟩
    cases r with
    | ok => exact hw ▸ h
    | error => exact hw ▸ h

theorem Disciplined.step (ha : Orderly sha256 s a) (hs : step sha256 s a = some s') :
    Disciplined sha256 s' := by
  cases a with
  | call c faults =>
    cases c with
    | patch running expected expected' =>
      have hw : Untouched s.fs ⟨s.fs, faults, []⟩ := ⟨rfl, rfl⟩
      obtain ⟨r, formal, hs', hr⟩ := step_call hs (patch_discipline hw ha.2)
      rw [hs']
      rintro _ ⟨⟩
      cases r with
      | ok => exact hr
      | error => exact hr
    | restore running =>
      obtain ⟨r, formal, hs', -⟩ :=
        step_call hs (Ends.of_all (fun _ _ => trivial) fun _ _ => trivial)
      rw [hs']
      rintro _ ⟨⟩
      trivial
  | rebuild candidate manifest =>
    cases hs
    rintro _ ⟨⟩
  | edit bundle =>
    cases hs
    rintro _ ⟨⟩

theorem Based.step {identity : Identity} {tree : Option Tree} (h : Based identity tree s)
    (ha : Orderly sha256 s a) (hs : step sha256 s a = some s') : Based identity tree s' := by
  cases a with
  | call c faults =>
    have hbooked : Booked identity tree ⟨s.fs, faults, []⟩ := ⟨h.1, h.2, ha.1⟩
    have hends : Ends (c.run sha256) ⟨s.fs, faults, []⟩ (fun _ => Booked identity tree)
        fun _ => Booked identity tree := by
      cases c with
      | patch => exact patch_booked _ hbooked
      | restore => exact restore_booked _ hbooked
    obtain ⟨r, formal, -, hr⟩ := step_call hs hends
    cases r with
    | ok => exact ⟨hr.state, hr.tree⟩
    | error => exact ⟨hr.state, hr.tree⟩
  | rebuild candidate manifest =>
    cases hs
    exact h
  | edit bundle =>
    cases hs
    exact h

/-- A run whose patches are not called over another patch keeps to the states,
and a baseline that is recorded stays. -/
theorem runs_disciplined (sha256 : String → String) (start : Sandbox) (as : List Action)
    (has : Machine.Each (step sha256) (Orderly sha256) ⟨start, none⟩ as) :
    Machine.Always (step sha256) (Disciplined sha256) ⟨start, none⟩ as ∧
      ∀ before after s identity, as = before ++ after →
        Machine.exec (step sha256) ⟨start, none⟩ before = some s →
        s.fs.state.baseline = some identity →
        Machine.Always (step sha256) (Based identity s.fs.baseline) s after := by
  refine ⟨Machine.Each.always (fun _ _ _ _ ha hs => Disciplined.step ha hs) ?_ has, ?_⟩
  · rintro _ ⟨⟩
  rintro before after s identity rfl hs hbaseline
  refine Machine.Each.always (fun _ _ _ h ha hs => h.step ha hs) ?_ (has.rest hs)
  exact ⟨hbaseline, rfl⟩

def fresh : Sandbox where
  bundle := some [("AKInterface", "old")]
  stage := none
  old := none
  baseline := none
  candidate := some [("AKInterface", "new")]
  manifest := some ⟨some "AKInterface", some "new", [(some "AKInterface", some "new")]⟩
  state := .absent
  current := false
  history := []

def first : Action := .call (.patch false (some "new") (some "old")) []

def update : Action :=
  .rebuild (some [("AKInterface", "newer")])
    (some ⟨some "AKInterface", some "newer", [(some "AKInterface", some "newer")]⟩)

/-- Patched twice over, edited, refused, and edited back. -/
theorem edited_disciplined :
    Machine.Always (step id) (Disciplined id) ⟨fresh, none⟩
        [first, first, .edit (some []), first, .call (.restore false) []] ∧
      (Machine.exec (step id) ⟨fresh, none⟩ [first, first, .edit (some []), first]).map
        (fun s => (s.fs.bundle, s.fs.status id, s.fs.state.baseline)) =
        some (some [], some .drifted, some ⟨[("AKInterface", "old")], some "old"⟩) := by
  refine ⟨(runs_disciplined id fresh _ ?_).1, by decide +kernel⟩
  refine Machine.Each.cons rfl ⟨nofun, fun h => absurd h.patched (by decide +kernel)⟩ ?_
  refine Machine.Each.cons rfl ⟨nofun, fun h => absurd rfl h.update⟩ ?_
  refine Machine.Each.cons rfl trivial ?_
  refine Machine.Each.cons rfl ⟨nofun, fun h => absurd h.patched (by decide +kernel)⟩ ?_
  exact fun _ _ => ⟨⟨nofun, trivial⟩, trivial⟩

def overPatch : List Action := [first, update, .call (.patch false (some "newer") none) []]

/-- A patch replaces the patch before it. -/
theorem update_installed :
    ¬ ∀ as, Machine.Always (step id) (Disciplined id) ⟨fresh, none⟩ as := by
  intro h
  have hrun : ((Machine.exec (step id) ⟨fresh, none⟩ overPatch).bind fun s =>
      s.last.map fun v => (s.fs.bundle, v.before.bundle, v.before.status id)) =
      some (some [("AKInterface", "newer")], some [("AKInterface", "new")], some .patched) := by
    decide +kernel
  have hcalls : ((Machine.exec (step id) ⟨fresh, none⟩ overPatch).bind fun s =>
      s.last.map Visit.call) = some (.patch false (some "newer") none) := by decide +kernel
  obtain ⟨s, hs, hlast⟩ := Option.bind_eq_some_iff.mp hrun
  obtain ⟨visit, hvisit, hends⟩ := Option.map_eq_some_iff.mp hlast
  simp only [Prod.mk.injEq] at hends
  obtain ⟨hbundle, hbefore, hpatched⟩ := hends
  rw [hs, Option.bind_some, hvisit] at hcalls
  have hdisciplined := (h _).exec hs visit hvisit
  rw [Option.some.inj hcalls] at hdisciplined
  obtain ⟨current, history, hfs⟩ := (hdisciplined.patched hpatched).2
  have hsame : s.fs.bundle = visit.before.bundle := congrArg (·.bundle) hfs
  rw [hbundle, hbefore] at hsame
  exact absurd hsame (by decide)

end Discipline

end ShinySongTools.Bundle
