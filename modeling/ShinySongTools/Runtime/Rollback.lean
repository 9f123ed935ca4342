import ShinySongTools.Runtime.Turns

/-!
# Owner rollback

`Accounts` is how the world and the ledgers of the owners agree with what the
owners' code has done: an owner's turns are entered in its ledger, and its
rollback takes back what the ledger says. `SameBut` compares two Apps that
differ in one owner's record.
-/

namespace ShinySongTools.Runtime

open Ledger

variable {T : Type u} {V : T → Type v}

/-- Newest first, so orders fall. -/
def Ordered (inserted : List (ResourceLedgerEntry T)) : Prop :=
  inserted.Pairwise fun newer older => older.order < newer.order

theorem Ordered.lt_nextOrder {l : List (ResourceLedgerEntry T)} (h : Ordered l) (he : e ∈ l) :
    e.order < nextOrder l := by
  cases l with
  | nil => cases he
  | cons newest rest =>
    rcases List.mem_cons.mp he with rfl | hin
    · exact Nat.lt_succ_self _
    · exact Nat.lt_succ_of_lt (List.rel_of_pairwise_cons h hin)

theorem Ordered.enter {l : List (ResourceLedgerEntry T)} (h : Ordered l) (puts : List (Entry V)) :
    Ordered (puts.foldl enter l) := by
  induction puts generalizing l with
  | nil => exact h
  | cons resource rest ih =>
    exact ih (List.pairwise_cons.mpr ⟨fun e he => h.lt_nextOrder he, h⟩)

theorem typeIds_enter (puts : List (Entry V)) (l : List (ResourceLedgerEntry T)) :
    (puts.foldl enter l).map ResourceLedgerEntry.typeId =
      (puts.map Entry.key).reverse ++ l.map ResourceLedgerEntry.typeId := by
  induction puts generalizing l with
  | nil => rfl
  | cons resource rest ih => rw [List.foldl_cons, ih]; simp [enter]

-- ---------------------------------------------------------------------------
-- One owner
-- ---------------------------------------------------------------------------

/-- Executing restore actions leaves the rest of the owner and the world alone. -/
theorem drainEffects_eq (main : Bool) (l : List RestoreAction) (s : Scope V) :
    ∃ effects history, s.drainEffects main l =
      { s with record := { s.record with effects, history } } := by
  induction l generalizing s with
  | nil => exact ⟨_, _, rfl⟩
  | cons action rest ih =>
    obtain ⟨effects, history, h⟩ := ih _
    exact ⟨effects, history, h⟩

@[simp] theorem drainEffects_world (main : Bool) (l : List RestoreAction) (s : Scope V) :
    (s.drainEffects main l).world = s.world := by
  obtain ⟨effects, history, h⟩ := drainEffects_eq main l s
  rw [h]

@[simp] theorem drainEffects_inserted (main : Bool) (l : List RestoreAction) (s : Scope V) :
    (s.drainEffects main l).record.inserted = s.record.inserted := by
  obtain ⟨effects, history, h⟩ := drainEffects_eq main l s
  rw [h]

@[simp] theorem drainEffects_state (main : Bool) (l : List RestoreAction) (s : Scope V) :
    (s.drainEffects main l).record.state = s.record.state := by
  obtain ⟨effects, history, h⟩ := drainEffects_eq main l s
  rw [h]

theorem filterMap_log {s : Scope V} {f : OwnerEvent V → Option β} (h : f event = none) :
    (s.log event).record.history.filterMap f = s.record.history.filterMap f := by
  simp [Scope.log, h]

theorem filterMap_drainEffects {f : OwnerEvent V → Option β}
    (hrestored : ∀ action token result, f (.restored action token result) = none) (main : Bool)
    (l : List RestoreAction) (s : Scope V) :
    (s.drainEffects main l).record.history.filterMap f = s.record.history.filterMap f := by
  induction l generalizing s with
  | nil => rfl
  | cons action rest ih => exact (ih _).trans (filterMap_log (hrestored _ _ _))

theorem Took.openGate {s s' : Scope V} {turns : List (Turn V)} [DecidableEq T]
    (h : Took s s' turns) : Took s s'.openGate turns := by
  unfold Scope.openGate
  split
  · next gate _ =>
    have hset : Took s { s' with record := { s'.record with gate := gate } } turns :=
      ⟨h.world, h.fits, h.inserted, h.effects, h.registered, h.state⟩
    exact hset.log rfl
  · exact ⟨h.world, h.fits, h.inserted, h.effects, h.registered, h.state⟩

variable [DecidableEq T]

theorem removeResources_record (l : List (ResourceLedgerEntry T)) (s : Scope V)
    (h : s.record.inserted = l) :
    (s.removeResources l).record = { s.record with inserted := [] } := by
  induction l generalizing s with
  | nil => simp [Scope.removeResources, ← h]
  | cons e rest ih => exact ih _ rfl

theorem removeResources_world (l : List (ResourceLedgerEntry T)) (s : Scope V) :
    (s.removeResources l).world = s.world.removeAll (l.map ResourceLedgerEntry.typeId) := by
  induction l generalizing s with
  | nil => rfl
  | cons e rest ih => exact ih _

theorem rollback_world (s : Scope V) (main : Bool) :
    (s.rollback main).world =
      s.world.removeAll (s.record.inserted.map ResourceLedgerEntry.typeId) := by
  simp only [Scope.rollback, Scope.retire, Scope.log, drainEffects_world, removeResources_world]
  rfl

theorem rollback_inserted (s : Scope V) (main : Bool) : (s.rollback main).record.inserted = [] := by
  simp only [Scope.rollback, Scope.retire, Scope.log, drainEffects_inserted]
  rw [removeResources_record _ _ rfl]

theorem rollback_state (s : Scope V) (main : Bool) :
    (s.rollback main).record.state = .retired := rfl

theorem filterMap_rollback {f : OwnerEvent V → Option β} (hclosed : f .gateClosed = none)
    (hrestored : ∀ action token result, f (.restored action token result) = none)
    (hretired : f .retired = none) (s : Scope V) (main : Bool) :
    (s.rollback main).record.history.filterMap f = s.record.history.filterMap f := by
  refine (filterMap_log hretired).trans ((filterMap_drainEffects hrestored main _ _).trans ?_)
  rw [removeResources_record _ _ rfl]
  exact filterMap_log hclosed

-- ---------------------------------------------------------------------------
-- The App
-- ---------------------------------------------------------------------------

section

omit [DecidableEq T]

theorem withOwner_other {app : App V} (h : o ≠ owner) (f : Scope V → Scope V) :
    (app.withOwner owner f).records[o]? = app.records[o]? := by
  unfold App.withOwner
  split
  · simp [List.getElem?_set_ne h.symm]
  · rfl

theorem withOwner_length (app : App V) (owner : Nat) (f : Scope V → Scope V) :
    (app.withOwner owner f).records.length = app.records.length := by
  unfold App.withOwner
  split
  · exact List.length_set
  · rfl

theorem withOwner_self {app : App V} (h : app.records[owner]? = some r) (f : Scope V → Scope V) :
    (app.withOwner owner f).records[owner]? = some (f ⟨app.world, r⟩).record := by
  obtain ⟨hlt, rfl⟩ := List.getElem?_eq_some_iff.mp h
  simp [App.withOwner, hlt]

theorem withOwner_world {app : App V} (h : app.records[owner]? = some r) (f : Scope V → Scope V) :
    (app.withOwner owner f).world = (f ⟨app.world, r⟩).world := by
  simp [App.withOwner, h]

theorem withOwner_congr {app : App V} (h : app.records[owner]? = some r) {f g : Scope V → Scope V}
    (heq : f ⟨app.world, r⟩ = g ⟨app.world, r⟩) :
    app.withOwner owner f = app.withOwner owner g := by
  simp only [App.withOwner, h, heq]

theorem withOwner_withOwner {app : App V} (h : app.records[owner]? = some r)
    (f g : Scope V → Scope V) :
    (app.withOwner owner f).withOwner owner g = app.withOwner owner (g ∘ f) := by
  have hself := withOwner_self h f
  have hworld := withOwner_world h f
  conv_lhs => rw [App.withOwner, hself]
  simp [App.withOwner, h]

theorem isActive_iff {app : App V} :
    app.isActive owner = true ↔ ∃ r, app.records[owner]? = some r ∧ r.state = .active := by
  unfold App.isActive
  split <;> simp [*]

theorem mem_activeOwnerIds {app : App V} : o ∈ app.activeOwnerIds ↔ app.isActive o = true := by
  refine ⟨fun h => (List.mem_filter.mp h).2, fun h => List.mem_filter.mpr ⟨?_, h⟩⟩
  obtain ⟨r, hr, -⟩ := isActive_iff.mp h
  exact List.mem_range.mpr (List.getElem?_eq_some_iff.mp hr).1

theorem activeOwnerIds_nodup (app : App V) : app.activeOwnerIds.Nodup :=
  List.nodup_range.filter _

theorem forOwners_other {app : App V} (ho : owner ∉ owners) (f : Scope V → Scope V) :
    (app.forOwners owners f).records[owner]? = app.records[owner]? := by
  induction owners generalizing app with
  | nil => rfl
  | cons o rest ih =>
    obtain ⟨hne, hrest⟩ := not_or.mp (mt List.mem_cons.mpr ho)
    exact (ih hrest).trans (withOwner_other hne f)

theorem forOwners_length (app : App V) (owners : List Nat) (f : Scope V → Scope V) :
    (app.forOwners owners f).records.length = app.records.length := by
  induction owners generalizing app with
  | nil => rfl
  | cons o rest ih => exact (ih _).trans (withOwner_length app o f)

/-- What a driver loop makes of the record of an owner it visits. -/
theorem forOwners_at {app : App V} (f : Scope V → Scope V)
    (hnodup : (before ++ owner :: after).Nodup) {r : PluginRecord V}
    (hr : app.records[owner]? = some r) :
    (app.forOwners (before ++ owner :: after) f).records[owner]? =
      some (f ⟨(app.forOwners before f).world, r⟩).record := by
  obtain ⟨hbefore, hrest, hdisjoint⟩ := List.nodup_append.mp hnodup
  have hout : owner ∉ before := fun hmem => hdisjoint owner hmem owner List.mem_cons_self rfl
  simp only [App.forOwners, List.foldl_append, List.foldl_cons]
  exact (forOwners_other (List.nodup_cons.mp hrest).1 f).trans
    (withOwner_self ((forOwners_other hout f).trans hr) f)

/-- Every record a driver loop leaves is what it made of one there was. -/
theorem forOwners_records {app : App V} (f : Scope V → Scope V) (hnodup : owners.Nodup)
    {P Q : PluginRecord V → Prop} (hP : ∀ r ∈ app.records, P r)
    (hvisited : ∀ owner r w, owner ∈ owners → app.records[owner]? = some r → P r →
      Q (f ⟨w, r⟩).record)
    (hskipped : ∀ owner r, owner ∉ owners → app.records[owner]? = some r → P r → Q r) :
    ∀ r ∈ (app.forOwners owners f).records, Q r := by
  intro r' hr'
  obtain ⟨owner, howner⟩ := List.mem_iff_getElem?.mp hr'
  have hlt : owner < app.records.length := by
    rw [← forOwners_length app owners f]
    exact (List.getElem?_eq_some_iff.mp howner).1
  have hr : app.records[owner]? = some app.records[owner] := List.getElem?_eq_getElem hlt
  have hp := hP _ (List.getElem_mem hlt)
  by_cases hin : owner ∈ owners
  · obtain ⟨before, after, rfl⟩ := List.append_of_mem hin
    cases howner.symm.trans (forOwners_at f hnodup hr)
    exact hvisited owner _ _ hin hr hp
  · cases howner.symm.trans ((forOwners_other hin f).trans hr)
    exact hskipped owner _ hin hr hp

/-- The world an owner finds when a driver gets to it. -/
def App.worldAt (app : App V) (f : Scope V → Scope V) (owner : Nat) : Store V :=
  (app.forOwners ((List.range owner).filter app.isActive) f).world

theorem activeOwnerIds_split {app : App V} (hactive : app.isActive owner = true) :
    ∃ after, app.activeOwnerIds =
      (List.range owner).filter app.isActive ++ owner :: after := by
  obtain ⟨r, hr, -⟩ := isActive_iff.mp hactive
  obtain ⟨n, hn⟩ := Nat.exists_eq_add_of_lt (List.getElem?_eq_some_iff.mp hr).1
  refine ⟨((List.range n).map (owner + 1 + ·)).filter app.isActive, ?_⟩
  have hrange : List.range app.records.length =
      List.range owner ++ owner :: (List.range n).map (owner + 1 + ·) := by
    rw [hn, Nat.add_right_comm, List.range_add, List.range_succ, List.append_assoc]
    rfl
  rw [App.activeOwnerIds, hrange, List.filter_append, List.filter_cons_of_pos hactive]

/-- A pass over the active owners. -/
theorem pass_at {app : App V} (f : Scope V → Scope V) {r : PluginRecord V}
    (hr : app.records[owner]? = some r) (hactive : r.state = .active) :
    (app.forOwners app.activeOwnerIds f).records[owner]? =
      some (f ⟨app.worldAt f owner, r⟩).record := by
  obtain ⟨after, hsplit⟩ := activeOwnerIds_split (isActive_iff.mpr ⟨r, hr, hactive⟩)
  have hnodup := activeOwnerIds_nodup app
  rw [hsplit] at hnodup ⊢
  exact forOwners_at f hnodup hr

theorem pass_skips {app : App V} {owner : Nat} (f : Scope V → Scope V) {r : PluginRecord V}
    (hr : app.records[owner]? = some r) (hretired : r.state = .retired) :
    (app.forOwners app.activeOwnerIds f).records[owner]? = some r := by
  refine (forOwners_other (fun hin => ?_) f).trans hr
  obtain ⟨r', hr', hactive⟩ := isActive_iff.mp (mem_activeOwnerIds.mp hin)
  cases hr.symm.trans hr'
  cases hactive.symm.trans hretired

end

/-- Teardown gets to every owner. -/
theorem teardownAll_at {app : App V} {owner : Nat} {r : PluginRecord V}
    (hr : app.records[owner]? = some r) :
    ∃ w, app.teardownAll.records[owner]? = some (Scope.teardown ⟨w, r⟩).record := by
  have hin : owner ∈ (List.range app.records.length).reverse :=
    List.mem_reverse.mpr (List.mem_range.mpr (List.getElem?_eq_some_iff.mp hr).1)
  have hnodup := List.nodup_reverse.mpr (List.nodup_range (n := app.records.length))
  unfold App.teardownAll
  obtain ⟨before, after, hsplit⟩ := List.append_of_mem hin
  rw [hsplit] at hnodup ⊢
  exact ⟨_, forOwners_at Scope.teardown hnodup hr⟩

def App.ledger (app : App V) (owner : Nat) : List T :=
  match app.records[owner]? with
  | some r => r.inserted.map ResourceLedgerEntry.typeId
  | none => []

omit [DecidableEq T] in
theorem ledger_of_record {app : App V} {r : PluginRecord V} (hr : app.records[owner]? = some r) :
    app.ledger owner = r.inserted.map ResourceLedgerEntry.typeId := by
  rw [App.ledger, hr]

omit [DecidableEq T] in
theorem ledger_withOwner {app : App V} {r : PluginRecord V} (hr : app.records[owner]? = some r)
    (f : Scope V → Scope V) :
    (app.withOwner owner f).ledger = Function.update app.ledger owner
      ((f ⟨app.world, r⟩).record.inserted.map ResourceLedgerEntry.typeId) := by
  funext o
  by_cases ho : o = owner
  · rw [ho, Function.update_self, ledger_of_record (withOwner_self hr f)]
  · rw [Function.update_of_ne ho, App.ledger, App.ledger, withOwner_other ho]

omit [DecidableEq T] in
theorem isActive_withOwner {app : App V} {r : PluginRecord V} (hr : app.records[owner]? = some r)
    (hactive : r.state = .active) (f : Scope V → Scope V) :
    (app.withOwner owner f).isActive o = true ↔
      (o = owner → (f ⟨app.world, r⟩).record.state = .active) ∧ app.isActive o = true := by
  by_cases ho : o = owner
  · subst ho
    simp [App.isActive, withOwner_self hr f, hr, hactive]
  · simp [App.isActive, withOwner_other ho, ho]

/-- World and ledgers agree with what the owners' code has done. -/
structure App.Accounts (app : App V) (deeds : List (Deed Nat V)) : Prop where
  kept : Kept app.world app.ledger (app.isActive · = true) deeds
  ordered : ∀ r ∈ app.records, Ordered r.inserted
  owners : ∀ d ∈ deeds, d.owner < app.records.length

namespace App.Accounts

variable {app : App V} {deeds : List (Deed Nat V)} {r : PluginRecord V} {f : Scope V → Scope V}

omit [DecidableEq T] in
theorem new : (App.new : App V).Accounts [] where
  kept := by
    have hledger : (App.new : App V).ledger = fun _ => [] := by
      funext o
      simp [App.ledger, App.new]
    rw [hledger]
    exact .empty _
  ordered _ h := by cases h
  owners _ h := by cases h

omit [DecidableEq T] in
theorem ordered_withOwner (h : app.Accounts deeds) (hr : app.records[owner]? = some r)
    (hf : Ordered (f ⟨app.world, r⟩).record.inserted) :
    ∀ r' ∈ (app.withOwner owner f).records, Ordered r'.inserted := by
  intro r' hr'
  obtain ⟨o, ho⟩ := List.mem_iff_getElem?.mp hr'
  by_cases heq : o = owner
  · subst heq
    cases ho.symm.trans (withOwner_self hr f)
    exact hf
  · rw [withOwner_other heq] at ho
    exact h.ordered r' (List.mem_of_getElem? ho)

/-- An owner's code takes its turns. -/
theorem took (h : app.Accounts deeds) (hr : app.records[owner]? = some r)
    (hactive : r.state = .active) (htook : Took ⟨app.world, r⟩ (f ⟨app.world, r⟩) turns) :
    (app.withOwner owner f).Accounts (deeds ++ turns.map (·.by owner)) where
  kept := by
    have hstanding : app.isActive owner = true := isActive_iff.mpr ⟨r, hr, hactive⟩
    have hkept := h.kept.acts hstanding htook.fits
    rw [ledger_of_record hr] at hkept
    rw [withOwner_world hr, htook.world, ledger_withOwner hr, htook.inserted, typeIds_enter]
    have hsame : ((app.withOwner owner f).isActive · = true) = (app.isActive · = true) := by
      funext o
      refine propext ((isActive_withOwner hr hactive f).trans ⟨And.right, fun ho => ⟨?_, ho⟩⟩)
      exact fun _ => htook.state.trans hactive
    rw [hsame]
    simpa [List.map_map, List.flatMap_map, List.map_flatMap, Function.comp_def] using hkept
  ordered := by
    refine h.ordered_withOwner hr ?_
    rw [htook.inserted]
    exact (h.ordered r (List.mem_of_getElem? hr)).enter _
  owners d hd := by
    rw [withOwner_length]
    rcases List.mem_append.mp hd with hd | hd
    · exact h.owners d hd
    · obtain ⟨turn, -, rfl⟩ := List.mem_map.mp hd
      exact (List.getElem?_eq_some_iff.mp hr).1

/-- An owner is rolled back. -/
theorem rollback (h : app.Accounts deeds) (hr : app.records[owner]? = some r)
    (hactive : r.state = .active) (main : Bool) :
    (app.withOwner owner (Scope.rollback main)).Accounts deeds where
  kept := by
    have hkept := h.kept.withdraw owner
    rw [ledger_of_record hr] at hkept
    rw [withOwner_world hr, rollback_world, ledger_withOwner hr, rollback_inserted]
    have hgone : ((app.withOwner owner (Scope.rollback main)).isActive · = true) =
        fun o => o ≠ owner ∧ app.isActive o = true := by
      funext o
      refine propext ((isActive_withOwner hr hactive _).trans (and_congr_left fun _ => ?_))
      exact ⟨fun himp heq => PluginState.noConfusion (himp heq), fun hne heq => absurd heq hne⟩
    rw [hgone]
    exact hkept
  ordered := h.ordered_withOwner hr (by rw [rollback_inserted]; exact .nil)
  owners d hd := by
    rw [withOwner_length]
    exact h.owners d hd

/-- An owner's code takes its turns, and then the owner is rolled back. -/
theorem rolledBack (h : app.Accounts deeds) (hr : app.records[owner]? = some r)
    (hactive : r.state = .active) (htook : Took ⟨app.world, r⟩ s turns)
    (hf : f ⟨app.world, r⟩ = s.rollback main) :
    (app.withOwner owner f).Accounts (deeds ++ turns.map (·.by owner)) := by
  have hcomp : app.withOwner owner f =
      (app.withOwner owner fun _ => s).withOwner owner (Scope.rollback main) := by
    rw [withOwner_withOwner hr]
    exact withOwner_congr hr hf
  rw [hcomp]
  exact (h.took (f := fun _ => s) hr hactive htook).rollback (withOwner_self hr _)
    (htook.state.trans hactive) main

omit [DecidableEq T] in
/-- A plugin that has been given its record. -/
theorem enrol (h : app.Accounts deeds) (name : String) :
    App.Accounts { app with records := app.records ++ [PluginRecord.new name] } deeds := by
  have hledger : App.ledger { app with records := app.records ++ [PluginRecord.new name] } =
      app.ledger := by
    funext o
    rcases Nat.lt_trichotomy o app.records.length with hlt | rfl | hgt
    · simp [App.ledger, List.getElem?_append_left hlt]
    · simp [App.ledger, PluginRecord.new]
    · simp [App.ledger, List.getElem?_append_right (Nat.le_of_lt hgt),
        List.getElem?_eq_none (Nat.le_of_lt hgt), Nat.sub_ne_zero_of_lt hgt]
  refine ⟨?_, fun r hr => ?_, fun d hd => ?_⟩
  · rw [hledger]
    refine h.kept.enrol (o := app.records.length) (fun o ho => ?_) (by simp [App.ledger])
      fun d hd heq => absurd (h.owners d hd) (by omega)
    have hsame : (app.records ++ [PluginRecord.new name])[o]? = app.records[o]? := by
      rcases Nat.lt_or_gt_of_ne ho with hlt | hgt
      · exact List.getElem?_append_left hlt
      · simp [List.getElem?_append_right (Nat.le_of_lt hgt),
          List.getElem?_eq_none (Nat.le_of_lt hgt), Nat.sub_ne_zero_of_lt hgt]
    simp only [App.isActive, hsame]
  · rcases List.mem_append.mp hr with hr | hr
    · exact h.ordered r hr
    · obtain rfl := List.mem_singleton.mp hr
      exact .nil
  · rw [List.length_append]
    exact Nat.lt_add_right _ (h.owners d hd)

theorem addPlugin (h : app.Accounts deeds) (plugin : Plugin V) :
    (app.addPlugin plugin).Accounts
      (deeds ++ [(plugin.build.outcome app.world).by app.records.length]) := by
  have hnew : ({ app with records := app.records ++ [PluginRecord.new plugin.name] } :
      App V).records[app.records.length]? = some (PluginRecord.new plugin.name) := by simp
  have htook := Took.build plugin.build ⟨app.world, .new plugin.name⟩
  have hend := addPlugin_eq plugin ⟨app.world, .new plugin.name⟩
  split at hend
  · exact (h.enrol plugin.name).rolledBack hnew rfl htook hend
  · exact (h.enrol plugin.name).took hnew rfl (hend ▸ htook)

theorem runStartup (h : app.Accounts deeds) (hr : app.records[owner]? = some r)
    (hactive : r.state = .active) :
    (app.withOwner owner Scope.runStartup).Accounts
      (deeds ++ (startupTurns r.startup app.world).map (·.by owner)) := by
  have htook := (Passed.runStartupSystems r.startup 0 ⟨app.world, r⟩ rfl).took
  have hend := runStartup_eq ⟨app.world, r⟩
  split at hend
  · exact h.rolledBack hr hactive htook hend
  · exact h.took hr hactive (hend ▸ htook.openGate)

omit [DecidableEq T] in
/-- What is in the world is in the ledger of an owner that is active. -/
theorem present (h : app.Accounts deeds) (t : T) :
    (app.world t).isSome ↔ ∃ (owner : Nat) (r : PluginRecord V), app.records[owner]? = some r ∧
      r.state = .active ∧ ∃ e ∈ r.inserted, e.typeId = t := by
  rw [h.kept.isSome_iff]
  constructor
  · rintro ⟨owner, hin⟩
    obtain ⟨r, hr, hactive⟩ := isActive_iff.mp (h.kept.stands hin)
    rw [ledger_of_record hr] at hin
    exact ⟨owner, r, hr, hactive, List.mem_map.mp hin⟩
  · rintro ⟨owner, r, hr, -, hin⟩
    refine ⟨owner, ?_⟩
    rw [ledger_of_record hr]
    exact List.mem_map.mpr hin

omit [DecidableEq T] in
theorem once (h : app.Accounts deeds) :
    (app.records.flatMap fun r => r.inserted.map ResourceLedgerEntry.typeId).Nodup := by
  rw [List.nodup_flatMap]
  constructor
  · intro r hr
    obtain ⟨owner, howner⟩ := List.mem_iff_getElem?.mp hr
    rw [← ledger_of_record howner]
    exact h.kept.nodup owner
  · refine List.pairwise_iff_getElem.mpr fun o o' ho ho' hlt t hin hin' => Nat.ne_of_lt hlt ?_
    refine h.kept.apart o o' t ?_ ?_
    · rwa [ledger_of_record (List.getElem?_eq_getElem ho)]
    · rwa [ledger_of_record (List.getElem?_eq_getElem ho')]

end App.Accounts

end ShinySongTools.Runtime
