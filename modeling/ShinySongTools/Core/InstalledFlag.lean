import ShinySongTools.Core.Hook

/-!
# The installed flag

The three pieces of code that keep `installed` in step with one slot: the end
of `HookBuilder::install` with its rollback, the ledger action, and
`HookState::restore`; the last two treat the flag alike. Other parties write
the slot as they like between any two accesses, and a read may fail.

`owned` is what the flag should say. The code has no such field: it is set by
the compare-exchange of an install and cleared by a compare-exchange back to
the original that a readback confirms.
-/

namespace ShinySongTools.InstalledFlag

open Hook (InstallPc RestorePc)

structure State where
  slot : Addr
  installed : Bool
  owned : Bool
  installer : InstallPc
  restorers : Nat → RestorePc

def State.init (slot : Addr) : State := ⟨slot, false, false, .handler, fun _ => .idle⟩

inductive Action where
  /-- The installer's next step; a second install finds the site registered. -/
  | install (resolved : Except HookError Unit) (readable : Bool)
  | restore (restorer : Nat) (readable : Bool)
  | foreignWrite (word : Addr)

def State.goInstall (s : State) (pc : InstallPc) : State := { s with installer := pc }

def State.setRestorer (s : State) (i : Nat) (pc : RestorePc) : State :=
  { s with restorers := Function.update s.restorers i pc }

def State.read (s : State) (readable : Bool) : Option Addr := if readable then some s.slot else none

def installStep (replacement : Addr) (s : State) (resolved : Except HookError Unit)
    (readable : Bool) : State :=
  match s.installer with
  | .handler => s.goInstall .bind
  | .bind =>
    match resolved with
    | .error e => s.goInstall (.done (.error e))
    | .ok _ =>
      match MethodPointerSlot.bind (s.read readable) with
      | .error e => s.goInstall (.done (.error e))
      | .ok slot => s.goInstall (.storeOriginal slot)
  | .storeOriginal slot => s.goInstall (.storeActive slot)
  | .storeActive slot => s.goInstall (.cas slot)
  | .cas slot =>
    match RawSlotMemory.compareExchange s.slot slot.original replacement with
    | (.ok _, word) => { s with slot := word, owned := true }.goInstall (.readback slot)
    | (.error _, word) => { s with slot := word }.goInstall (.done (.error .slotConflict))
  | .readback slot =>
    s.goInstall (if s.read readable = some replacement then .storeInstalled slot
      else .rollbackCas slot)
  | .rollbackCas slot =>
    match RawSlotMemory.compareExchange s.slot replacement slot.original with
    | (.ok _, word) => { s with slot := word }.goInstall (.rollbackRead slot)
    | (.error _, word) => { s with slot := word }.goInstall (.done (.error .installationFailed))
  | .rollbackRead slot =>
    -- the flag stays false either way
    { s with owned := s.owned && decide (s.read readable ≠ some slot.original) }.goInstall
      (.done (.error .installationFailed))
  | .storeInstalled slot => { s with installed := true }.goInstall (.done (.ok slot))
  | .done _ => s

/-- A restore exists once `install` has returned. -/
def restoreStep (replacement : Addr) (s : State) (i : Nat) (readable : Bool) : Option State :=
  match s.installer with
  | .done (.ok slot) =>
    match s.restorers i with
    | .idle =>
      some ({ s with installed := false }.setRestorer i (if s.installed then .cas else .idle))
    | .cas =>
      match RawSlotMemory.compareExchange s.slot replacement slot.original with
      | (.ok _, word) => some ({ s with slot := word }.setRestorer i .readback)
      | (.error _, word) => some ({ s with slot := word }.setRestorer i .idle)
    | .readback =>
      if s.read readable = some slot.original then
        some ({ s with owned := false }.setRestorer i .idle)
      else some (s.setRestorer i .rearm)
    | .rearm => some ({ s with installed := true }.setRestorer i .idle)
  | _ => none

def step (replacement : Addr) (s : State) : Action → Option State
  | .install resolved readable => some (installStep replacement s resolved readable)
  | .restore i readable => restoreStep replacement s i readable
  | .foreignWrite word => some { s with slot := word }

-- ---------------------------------------------------------------------------
-- Conservative
-- ---------------------------------------------------------------------------

def Quiescent (s : State) : Prop :=
  (s.installer = .handler ∨ ∃ result, s.installer = .done result) ∧ ∀ i, s.restorers i = .idle

/-- Between operations the flag is set while the hook owns the slot, and
whenever the slot holds the replacement. -/
def Conservative (replacement : Addr) (s : State) : Prop :=
  Quiescent s → (s.owned = true → s.installed = true) ∧
    (s.slot = replacement → s.installed = true)

/-- A restore finds the replacement; so does the rollback of an unconfirmed
install, and its readback confirms; nobody else puts the replacement into a
slot the hook does not own. -/
def Undisturbed (replacement : Addr) (s : State) : Action → Prop
  | .install _ readable => match s.installer with
    | .rollbackCas _ => s.slot = replacement
    | .rollbackRead slot => s.read readable = some slot.original
    | _ => True
  | .restore i _ => s.restorers i = .cas → s.slot = replacement
  | .foreignWrite word => word = replacement → s.owned = true

def bound : InstallPc → Option MethodPointerSlot
  | .storeOriginal slot | .storeActive slot | .cas slot | .readback slot | .rollbackCas slot
  | .rollbackRead slot | .storeInstalled slot | .done (.ok slot) => some slot
  | .handler | .bind | .done (.error _) => none

/-- The flag and what it stands for, by how far installing has come. -/
def FlagOk (s : State) : Prop :=
  match s.installer with
  | .done (.ok _) => s.owned = true → s.installed = true ∨ ∃ i, s.restorers i ≠ .idle
  | .readback _ | .rollbackCas _ | .rollbackRead _ | .storeInstalled _ =>
    s.owned = true ∧ s.installed = false ∧ ∀ i, s.restorers i = .idle
  | _ => s.owned = false ∧ s.installed = false ∧ ∀ i, s.restorers i = .idle

structure Inv (replacement : Addr) (s : State) : Prop where
  free : s.owned = false → s.slot ≠ replacement
  bound : ∀ slot, bound s.installer = some slot → slot.original ≠ replacement
  flag : FlagOk s
  exact : s.installed = true → s.owned = true
  lone : ∀ i, s.restorers i ≠ .idle → s.installed = false ∧ s.owned = true ∧
    ∀ j, s.restorers j ≠ .idle → j = i

theorem Inv.init (h : slot ≠ replacement) : Inv replacement (State.init slot) where
  free _ := h
  bound _ hb := by cases hb
  flag := ⟨rfl, rfl, fun _ => rfl⟩
  exact hi := by cases hi
  lone i hi := absurd rfl hi

theorem Inv.conservative (h : Inv replacement s) : Conservative replacement s := by
  rintro ⟨hpc, hidle⟩
  have howned : s.owned = true → s.installed = true := by
    intro ho
    have hflag := h.flag
    rcases hpc with hpc | ⟨result, hpc⟩
    · simp only [FlagOk, hpc] at hflag
      simp [hflag.1] at ho
    · cases result with
      | error e =>
        simp only [FlagOk, hpc] at hflag
        simp [hflag.1] at ho
      | ok slot =>
        simp only [FlagOk, hpc] at hflag
        refine (hflag ho).resolve_right ?_
        rintro ⟨i, hi⟩
        exact hi (hidle i)
  refine ⟨howned, fun hslot => howned ?_⟩
  by_contra ho
  exact h.free (by simpa using ho) hslot

-- ---------------------------------------------------------------------------
-- The steps
-- ---------------------------------------------------------------------------

theorem Inv.goInstall (h : Inv replacement s)
    (hbound : ∀ slot, InstalledFlag.bound pc = some slot → slot.original ≠ replacement)
    (hflag : FlagOk (s.goInstall pc)) : Inv replacement (s.goInstall pc) :=
  ⟨h.free, hbound, hflag, h.exact, h.lone⟩

theorem read_some {s : State} (h : s.read readable = some word) : s.slot = word := by
  unfold State.read at h
  split at h
  · exact Option.some.inj h
  · cases h

theorem Inv.installCas (h : Inv replacement s) (hpc : s.installer = .cas slot) :
    Inv replacement (installStep replacement s resolved readable) := by
  have hflag := h.flag
  have hbound := h.bound slot (by rw [hpc]; rfl)
  simp only [FlagOk, hpc] at hflag
  obtain ⟨howned, hinstalled, hidle⟩ := hflag
  simp only [installStep, hpc, RawSlotMemory.compareExchange]
  by_cases hslot : s.slot = slot.original
  · rw [if_pos hslot]
    refine ⟨(fun ho => by cases ho), fun slot' hb => ?_, ⟨rfl, hinstalled, hidle⟩, fun _ => rfl,
      fun i hi => absurd (hidle i) hi⟩
    cases hb
    exact hbound
  · rw [if_neg hslot]
    exact h.goInstall (fun slot' hb => by cases hb) ⟨howned, hinstalled, hidle⟩

theorem Inv.rollbackCas (h : Inv replacement s) (hpc : s.installer = .rollbackCas slot)
    (hslot : s.slot = replacement) :
    Inv replacement (installStep replacement s resolved readable) := by
  have hflag := h.flag
  have hbound := h.bound slot (by rw [hpc]; rfl)
  simp only [FlagOk, hpc] at hflag
  simp only [installStep, hpc, RawSlotMemory.compareExchange, if_pos hslot]
  refine ⟨fun ho => ?_, fun slot' hb => ?_, hflag, h.exact, h.lone⟩
  · exact absurd (hflag.1.symm.trans ho) (by decide)
  · cases hb
    exact hbound

/-- A confirmed rollback gives the slot back. -/
theorem Inv.rollbackRead (h : Inv replacement s) (hpc : s.installer = .rollbackRead slot)
    (hread : s.read readable = some slot.original) :
    Inv replacement (installStep replacement s resolved readable) := by
  have hflag := h.flag
  have hbound := h.bound slot (by rw [hpc]; rfl)
  simp only [FlagOk, hpc] at hflag
  obtain ⟨-, hinstalled, hidle⟩ := hflag
  simp only [installStep, hpc, hread]
  refine ⟨fun _ => ?_, (fun slot' hb => by cases hb),
    ⟨by simp [State.goInstall], hinstalled, hidle⟩, fun hi => ?_, fun i hi => absurd (hidle i) hi⟩
  · exact (read_some hread).trans_ne hbound
  · exact absurd (hinstalled.symm.trans hi) (by decide)

theorem Inv.storeInstalled (h : Inv replacement s) (hpc : s.installer = .storeInstalled slot) :
    Inv replacement (installStep replacement s resolved readable) := by
  have hflag := h.flag
  have hbound := h.bound slot (by rw [hpc]; rfl)
  simp only [FlagOk, hpc] at hflag
  obtain ⟨howned, -, hidle⟩ := hflag
  simp only [installStep, hpc]
  refine ⟨fun ho => ?_, fun slot' hb => ?_, fun _ => .inl rfl, fun _ => howned,
    fun i hi => absurd (hidle i) hi⟩
  · exact absurd (howned.symm.trans ho) (by decide)
  · cases hb
    exact hbound

theorem Inv.bind (h : Inv replacement s) (hpc : s.installer = .bind) :
    Inv replacement (installStep replacement s resolved readable) := by
  have hflag := h.flag
  simp only [FlagOk, hpc] at hflag
  simp only [installStep, hpc]
  split
  · exact h.goInstall (fun _ hb => by cases hb) hflag
  split
  · exact h.goInstall (fun _ hb => by cases hb) hflag
  · next slot hbind =>
    refine h.goInstall (fun slot' hb => ?_) hflag
    cases hb
    -- the captured original was in a slot nobody had put the replacement into
    have hread := (MethodPointerSlot.bind_ok hbind).1
    exact fun heq => h.free hflag.1 ((read_some hread).trans heq)

theorem Inv.install (h : Inv replacement s)
    (hg : Undisturbed replacement s (.install resolved readable)) :
    Inv replacement (installStep replacement s resolved readable) := by
  have hflag := h.flag
  have hbound := h.bound
  unfold Undisturbed at hg
  cases hpc : s.installer with
  | cas slot => exact h.installCas hpc
  | rollbackCas slot =>
    rw [hpc] at hg
    exact h.rollbackCas hpc hg
  | rollbackRead slot =>
    rw [hpc] at hg
    exact h.rollbackRead hpc hg
  | storeInstalled slot => exact h.storeInstalled hpc
  | bind => exact h.bind hpc
  | handler =>
    simp only [FlagOk, hpc] at hflag
    simp only [installStep, hpc]
    exact h.goInstall (fun _ hb => by cases hb) hflag
  | storeOriginal slot | storeActive slot =>
    simp only [FlagOk, hpc] at hflag
    simp only [hpc] at hbound
    simp only [installStep, hpc]
    exact h.goInstall hbound hflag
  | readback slot =>
    simp only [FlagOk, hpc] at hflag
    simp only [hpc] at hbound
    simp only [installStep, hpc]
    split
    · exact h.goInstall hbound hflag
    · exact h.goInstall hbound hflag
  | done result =>
    simp only [installStep, hpc]
    exact h

theorem setRestorer_idle {s : State} (hi : s.restorers i = .idle) : s.setRestorer i .idle = s := by
  rw [State.setRestorer, ← hi, Function.update_eq_self]

theorem Inv.armed (h : Inv replacement s) (hpc : s.installer = .done (.ok slot))
    (hi : s.restorers i ≠ .idle) (word : Addr) (pc : RestorePc) (hne : pc ≠ .idle) :
    Inv replacement ({ s with slot := word }.setRestorer i pc) := by
  obtain ⟨hinstalled, howned, honly⟩ := h.lone i hi
  refine ⟨fun ho => ?_, h.bound, ?_, h.exact, fun j hj => ?_⟩
  · exact absurd (howned.symm.trans ho) (by decide)
  · simp only [FlagOk, State.setRestorer, hpc]
    exact fun _ => .inr ⟨i, by simpa using hne⟩
  · have hji : j = i := by
      by_contra hji
      have hjs : s.restorers j ≠ .idle := by simpa [State.setRestorer, hji] using hj
      exact hji (honly j hjs)
    refine ⟨hinstalled, howned, fun k hk => ?_⟩
    by_contra hkj
    have hks : s.restorers k ≠ .idle := by
      simpa [State.setRestorer, hji ▸ hkj] using hk
    exact hkj ((honly k hks).trans hji.symm)

theorem Inv.disarmed (h : Inv replacement s) (hpc : s.installer = .done (.ok slot))
    (hi : s.restorers i ≠ .idle) (installed owned : Bool) (heq : installed = owned)
    (hfree : owned = false → s.slot ≠ replacement) :
    Inv replacement ({ s with installed, owned }.setRestorer i .idle) := by
  subst heq
  refine ⟨hfree, h.bound, ?_, fun ho => ho, fun j hj => ?_⟩
  · simp only [FlagOk, State.setRestorer, hpc]
    exact .inl
  · have hji : j ≠ i := by
      rintro rfl
      simp [State.setRestorer] at hj
    have hjs : s.restorers j ≠ .idle := by simpa [State.setRestorer, hji] using hj
    exact absurd ((h.lone i hi).2.2 j hjs) hji

theorem Inv.arm (h : Inv replacement s) (hpc : s.installer = .done (.ok slot))
    (hinstalled : s.installed = true) :
    Inv replacement ({ s with installed := false }.setRestorer i .cas) := by
  have howned := h.exact hinstalled
  have hidle : ∀ j, s.restorers j = .idle := by
    intro j
    by_contra hj
    simp [(h.lone j hj).1] at hinstalled
  refine ⟨h.free, h.bound, ?_, (fun hf => by cases hf), fun j hj => ?_⟩
  · simp only [FlagOk, State.setRestorer, hpc]
    exact fun _ => .inr ⟨i, by simp⟩
  · have honly : ∀ k, Function.update s.restorers i .cas k ≠ .idle → k = i := by
      intro k hk
      by_contra hki
      exact hk ((Function.update_of_ne hki _ _).trans (hidle k))
    exact ⟨rfl, howned, fun k hk => (honly k hk).trans (honly j hj).symm⟩

theorem Inv.restore (h : Inv replacement s)
    (hg : Undisturbed replacement s (.restore i readable))
    (hs : restoreStep replacement s i readable = some s') : Inv replacement s' := by
  unfold restoreStep at hs
  split at hs
  case h_2 => cases hs
  next slot hpc =>
  have hbound := h.bound slot (by rw [hpc]; rfl)
  cases hi : s.restorers i <;> simp only [hi] at hs
  case idle =>
    cases hinstalled : s.installed with
    | true =>
      simp only [hinstalled, if_true, Option.some.injEq] at hs
      exact hs ▸ h.arm hpc hinstalled
    | false =>
      simp only [hinstalled, Bool.false_eq_true, if_false, Option.some.injEq] at hs
      have hsame : ({ s with installed := false } : State) = s := by
        rw [← hinstalled]
      rw [hsame, setRestorer_idle hi] at hs
      exact hs ▸ h
  case cas =>
    have hslot : s.slot = replacement := hg hi
    simp only [RawSlotMemory.compareExchange, hslot, if_true, Option.some.injEq] at hs
    exact hs ▸ h.armed hpc (by simp [hi]) _ _ (by simp)
  case readback =>
    have hne : s.restorers i ≠ .idle := by simp [hi]
    split at hs
    · next hread =>
      cases hs
      exact h.disarmed hpc hne s.installed false (h.lone i hne).1
        fun _ => (read_some hread).trans_ne hbound
    · cases hs
      exact h.armed hpc hne s.slot .rearm (by simp)
  case rearm =>
    cases hs
    have hne : s.restorers i ≠ .idle := by simp [hi]
    have howned := (h.lone i hne).2.1
    exact h.disarmed hpc hne true s.owned howned.symm fun hf =>
      absurd (howned.symm.trans hf) (by decide)

theorem Inv.step (h : Inv replacement s) (hg : Undisturbed replacement s a)
    (hs : step replacement s a = some s') : Inv replacement s' := by
  cases a with
  | install resolved readable =>
    cases hs
    exact h.install hg
  | restore i readable => exact h.restore hg hs
  | foreignWrite word =>
    cases hs
    refine ⟨fun ho hword => ?_, h.bound, h.flag, h.exact, h.lone⟩
    exact absurd (ho.symm.trans (hg hword)) (by decide)

/-- In a run of such steps the flag is conservative in every state between
operations. -/
theorem conservative_of_undisturbed (replacement slot : Addr) (h : slot ≠ replacement)
    (as : List Action)
    (hg : Machine.Each (step replacement) (Undisturbed replacement) (State.init slot) as) :
    Machine.Always (step replacement) (Conservative replacement) (State.init slot) as :=
  (Machine.Each.always (fun _ _ _ => Inv.step) (Inv.init h) hg).mono fun _ => Inv.conservative

/-- The readback of a restore fails and the flag is set again. -/
theorem conservative_unreadable :
    Machine.Always (step 2) (Conservative 2) (State.init 1)
      [.install (.ok ()) true, .install (.ok ()) true, .install (.ok ()) true,
        .install (.ok ()) true, .install (.ok ()) true, .install (.ok ()) true,
        .install (.ok ()) true, .restore 0 true, .restore 0 true, .restore 0 false,
        .restore 0 true] := by
  refine conservative_of_undisturbed 2 1 (by decide) _ ?_
  iterate 7 refine Machine.Each.cons rfl trivial ?_
  refine Machine.Each.cons rfl nofun ?_
  refine Machine.Each.cons rfl (fun _ => rfl) ?_
  refine Machine.Each.cons rfl nofun ?_
  exact Machine.Each.cons rfl nofun trivial

/-- Another owner takes the slot over; the restore finds the drift and leaves
the flag cleared. -/
theorem drift_clears_flag : ¬ ∀ (replacement slot : Addr) (as : List Action),
    slot ≠ replacement →
    Machine.Always (step replacement) (Conservative replacement) (State.init slot) as := by
  intro h
  let ok := Action.install (.ok ()) true
  have hconservative := (h 2 1 [ok, ok, ok, ok, ok, ok, ok, .foreignWrite 3, .restore 0 true,
    .restore 0 true] (by decide)).exec rfl
  have hquiet : ∀ i, Function.update (Function.update (fun _ => RestorePc.idle) 0 .cas) 0 .idle i =
      RestorePc.idle := by
    intro i
    by_cases hi : i = 0 <;> simp [hi]
  cases (hconservative ⟨.inr ⟨_, rfl⟩, hquiet⟩).1 rfl

end ShinySongTools.InstalledFlag
