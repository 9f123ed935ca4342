import ShinySongTools.Runtime.Rollback
import Mathlib.Data.List.Induction

/-!
# The frame of a rollback

What is left once all plugins are added and Startup has run: the world, the
ledgers and the states of the owners, read off what the builds and the Startup
systems have done. A plugin that fails is replaced by one that only inserts
and changes what it did, and fails in the same phase; no other owner, and
nothing in the world, can tell the two runs apart.
-/

namespace ShinySongTools.Runtime

open Ledger

variable {T : Type u} {V : T → Type v}

/-- Two Apps that differ in one owner's record. -/
structure SameBut (owner : Nat) (app app' : App V) : Prop where
  world : app'.world = app.world
  length : app'.records.length = app.records.length
  others : ∀ o, o ≠ owner → app'.records[o]? = app.records[o]?

theorem SameBut.withOwner {app app' : App V} (h : SameBut owner app app') (ho : o ≠ owner)
    (f : Scope V → Scope V) : SameBut owner (app.withOwner o f) (app'.withOwner o f) := by
  have heq := h.others o ho
  cases hr : app.records[o]? with
  | none =>
    rw [hr] at heq
    simpa [App.withOwner, hr, heq] using h
  | some r =>
    rw [hr] at heq
    refine ⟨?_, ?_, fun p hp => ?_⟩
    · rw [withOwner_world heq, withOwner_world hr, h.world]
    · rw [withOwner_length, withOwner_length, h.length]
    · by_cases hpo : p = o
      · subst hpo
        rw [withOwner_self heq, withOwner_self hr, h.world]
      · rw [withOwner_other hpo, withOwner_other hpo, h.others p hp]

theorem SameBut.forOwners {app app' : App V} (h : SameBut owner app app') (ho : owner ∉ owners)
    (f : Scope V → Scope V) : SameBut owner (app.forOwners owners f) (app'.forOwners owners f) := by
  induction owners generalizing app app' with
  | nil => exact h
  | cons o rest ih =>
    obtain ⟨hne, hrest⟩ := not_or.mp (mt List.mem_cons.mpr ho)
    exact ih (h.withOwner (Ne.symm hne) f) hrest

/-- At the owner itself it is enough that the world comes out the same. -/
theorem SameBut.withSelf {app app' : App V} {r r' : PluginRecord V} (h : SameBut owner app app')
    (hr : app.records[owner]? = some r) (hr' : app'.records[owner]? = some r')
    {f : Scope V → Scope V} (hworld : (f ⟨app'.world, r'⟩).world = (f ⟨app.world, r⟩).world) :
    SameBut owner (app.withOwner owner f) (app'.withOwner owner f) := by
  refine ⟨?_, ?_, fun o ho => ?_⟩
  · rw [withOwner_world hr', withOwner_world hr, hworld]
  · rw [withOwner_length, withOwner_length, h.length]
  · rw [withOwner_other ho, withOwner_other ho, h.others o ho]

theorem SameBut.isActive {app app' : App V} {r r' : PluginRecord V} (h : SameBut owner app app')
    (hr : app.records[owner]? = some r) (hr' : app'.records[owner]? = some r')
    (hstate : r'.state = r.state) : app'.isActive = app.isActive := by
  funext o
  by_cases ho : o = owner
  · rw [ho, App.isActive, App.isActive, hr, hr']
    exact congrArg (fun state : PluginState => decide (state = .active)) hstate
  · rw [App.isActive, App.isActive, h.others o ho]

theorem SameBut.worldAt {app app' : App V} (h : SameBut owner app app')
    (hactive : app'.isActive = app.isActive) (f : Scope V → Scope V) :
    app'.worldAt f owner = app.worldAt f owner := by
  rw [App.worldAt, App.worldAt, hactive]
  exact (h.forOwners (fun hin => Nat.lt_irrefl owner
    (List.mem_range.mp (List.mem_of_mem_filter hin))) f).world

/-- A pass keeps two Apps alike if it does at the owner itself. -/
theorem SameBut.pass {app app' : App V} {r r' : PluginRecord V} (h : SameBut owner app app')
    (hr : app.records[owner]? = some r) (hr' : app'.records[owner]? = some r')
    (hstate : r'.state = r.state) {f : Scope V → Scope V}
    (hself : r.state = .active → (f ⟨app.worldAt f owner, r'⟩).world =
      (f ⟨app.worldAt f owner, r⟩).world) :
    SameBut owner (app.forOwners app.activeOwnerIds f)
      (app'.forOwners app'.activeOwnerIds f) := by
  have hactive := h.isActive hr hr' hstate
  have hids : app'.activeOwnerIds = app.activeOwnerIds := by
    rw [App.activeOwnerIds, App.activeOwnerIds, h.length, hactive]
  rw [hids]
  cases hstate₀ : r.state with
  | retired =>
    refine h.forOwners (fun hin => ?_) f
    obtain ⟨r₀, hr₀, hactive₀⟩ := isActive_iff.mp (mem_activeOwnerIds.mp hin)
    cases hr.symm.trans hr₀
    cases hstate₀.symm.trans hactive₀
  | active =>
    obtain ⟨after, hsplit⟩ := activeOwnerIds_split (isActive_iff.mpr ⟨r, hr, hstate₀⟩)
    have hnodup := activeOwnerIds_nodup app
    rw [hsplit] at hnodup ⊢
    obtain ⟨-, hrest, hdisjoint⟩ := List.nodup_append.mp hnodup
    have hbefore : owner ∉ (List.range owner).filter app.isActive := fun hmem =>
      hdisjoint owner hmem owner List.mem_cons_self rfl
    have hworld := h.worldAt hactive f
    rw [App.worldAt, App.worldAt, hactive] at hworld
    simp only [App.forOwners, List.foldl_append, List.foldl_cons]
    refine SameBut.forOwners (SameBut.withSelf (h.forOwners hbefore f)
      ((forOwners_other hbefore f).trans hr) ((forOwners_other hbefore f).trans hr') ?_)
      (List.nodup_cons.mp hrest).1 f
    rw [hworld]
    exact hself hstate₀

variable [DecidableEq T]

-- ---------------------------------------------------------------------------
-- The builds
-- ---------------------------------------------------------------------------

def afterBuilds (plugins : List (Plugin V)) : App V := plugins.foldl App.addPlugin .new

def afterStartup (plugins : List (Plugin V)) : App V := (afterBuilds plugins).runStartup

theorem addPlugin_length (app : App V) (plugin : Plugin V) :
    (app.addPlugin plugin).records.length = app.records.length + 1 := by
  rw [App.addPlugin, withOwner_length, List.length_append]
  rfl

theorem addPlugin_other {app : App V} (h : o < app.records.length) (plugin : Plugin V) :
    (app.addPlugin plugin).records[o]? = app.records[o]? := by
  rw [App.addPlugin, withOwner_other (Nat.ne_of_lt h)]
  exact List.getElem?_append_left h

theorem addPlugin_new (app : App V) (plugin : Plugin V) :
    (app.addPlugin plugin).records[app.records.length]? =
        some (Scope.addPlugin plugin ⟨app.world, .new plugin.name⟩).record ∧
      (app.addPlugin plugin).world =
        (Scope.addPlugin plugin ⟨app.world, .new plugin.name⟩).world := by
  have hnew : ({ app with records := app.records ++ [PluginRecord.new plugin.name] } :
      App V).records[app.records.length]? = some (PluginRecord.new plugin.name) := by simp
  exact ⟨withOwner_self hnew _, withOwner_world hnew _⟩

theorem addPlugin_records {app : App V} {P : PluginRecord V → Prop} (h : ∀ r ∈ app.records, P r)
    (plugin : Plugin V) (hnew : P (Scope.addPlugin plugin ⟨app.world, .new plugin.name⟩).record) :
    ∀ r ∈ (app.addPlugin plugin).records, P r := by
  intro r hr
  obtain ⟨owner, howner⟩ := List.mem_iff_getElem?.mp hr
  have hlt := (List.getElem?_eq_some_iff.mp howner).1
  rw [addPlugin_length] at hlt
  rcases Nat.lt_succ_iff_lt_or_eq.mp hlt with hold | rfl
  · rw [addPlugin_other hold] at howner
    exact h r (List.mem_of_getElem? howner)
  · cases howner.symm.trans (addPlugin_new app plugin).1
    exact hnew

theorem afterBuilds_records {P : PluginRecord V → Prop} (plugins : List (Plugin V))
    (hnew : ∀ (plugin : Plugin V) w, P (Scope.addPlugin plugin ⟨w, .new plugin.name⟩).record) :
    ∀ r ∈ (afterBuilds plugins).records, P r := by
  suffices ∀ app : App V, (∀ r ∈ app.records, P r) →
      ∀ r ∈ (plugins.foldl App.addPlugin app).records, P r from this .new nofun
  intro app h
  induction plugins generalizing app with
  | nil => exact h
  | cons plugin rest ih => exact ih _ (addPlugin_records h plugin (hnew plugin app.world))

theorem addPlugins_other {app : App V} (h : o < app.records.length) (plugins : List (Plugin V)) :
    (plugins.foldl App.addPlugin app).records[o]? = app.records[o]? := by
  induction plugins generalizing app with
  | nil => rfl
  | cons plugin rest ih =>
    have hlt : o < (app.addPlugin plugin).records.length := by
      rw [addPlugin_length]
      exact Nat.lt_succ_of_lt h
    exact (ih hlt).trans (addPlugin_other h plugin)

theorem afterBuilds_concat (plugins : List (Plugin V)) (plugin : Plugin V) :
    afterBuilds (plugins ++ [plugin]) = (afterBuilds plugins).addPlugin plugin := by
  simp [afterBuilds]

theorem afterBuilds_length (plugins : List (Plugin V)) :
    (afterBuilds plugins).records.length = plugins.length := by
  induction plugins using List.reverseRecOn with
  | nil => rfl
  | append_singleton plugins plugin ih =>
    rw [afterBuilds_concat, addPlugin_length, ih, List.length_append]
    rfl

/-- An owner's record is left alone by the builds that follow. -/
theorem afterBuilds_at {plugins : List (Plugin V)} (h : plugins[owner]? = some plugin) :
    (afterBuilds plugins).records[owner]? = some (Scope.addPlugin plugin
      ⟨(afterBuilds (plugins.take owner)).world, .new plugin.name⟩).record := by
  obtain ⟨hlt, rfl⟩ := List.getElem?_eq_some_iff.mp h
  have hlength : (afterBuilds (plugins.take owner)).records.length = owner := by
    rw [afterBuilds_length, List.length_take_of_le (Nat.le_of_lt hlt)]
  have hsplit : plugins = plugins.take owner ++ plugins[owner] :: plugins.drop (owner + 1) := by
    rw [List.getElem_cons_drop, List.take_append_drop]
  conv_lhs => rw [hsplit, afterBuilds, List.foldl_append, List.foldl_cons, ← afterBuilds]
  rw [addPlugins_other (by rw [addPlugin_length, hlength]; exact Nat.lt_succ_self owner)]
  have hnew := (addPlugin_new (afterBuilds (plugins.take owner)) plugins[owner]).1
  rwa [hlength] at hnew

/-- What an owner's build does when its turn comes. -/
def built (plugins : List (Plugin V)) (owner : Nat) : Built V :=
  match plugins[owner]? with
  | some plugin => plugin.build.outcome (afterBuilds (plugins.take owner)).world
  | none => .ending false

/-- The turns an owner's Startup systems take. -/
def started (plugins : List (Plugin V)) (owner : Nat) : List (Turn V) :=
  if (built plugins owner).failed then []
  else startupTurns (built plugins owner).startup
    ((afterBuilds plugins).worldAt Scope.runStartup owner)

/-- The owner's build returns `Err`, or one of its Startup systems fails. -/
def Fails (plugins : List (Plugin V)) (owner : Nat) : Prop :=
  (built plugins owner).failed = true ∨ ∃ turn ∈ started plugins owner, turn.failed = true

def buildDeeds (plugins : List (Plugin V)) : List (Deed Nat V) :=
  (List.range plugins.length).map fun owner => (built plugins owner).by owner

/-- What all owners' code does, the builds first. -/
def deeds (plugins : List (Plugin V)) : List (Deed Nat V) :=
  buildDeeds plugins ++
    (List.range plugins.length).flatMap fun owner => (started plugins owner).map (·.by owner)

theorem built_append {plugins : List (Plugin V)} (h : owner < plugins.length)
    (rest : List (Plugin V)) : built (plugins ++ rest) owner = built plugins owner := by
  rw [built, built, List.getElem?_append_left h, List.take_append_of_le_length (Nat.le_of_lt h)]

theorem afterBuilds_accounts (plugins : List (Plugin V)) :
    (afterBuilds plugins).Accounts (buildDeeds plugins) := by
  induction plugins using List.reverseRecOn with
  | nil => exact .new
  | append_singleton plugins plugin ih =>
    have hdeeds : buildDeeds (plugins ++ [plugin]) = buildDeeds plugins ++
        [(plugin.build.outcome (afterBuilds plugins).world).by plugins.length] := by
      rw [buildDeeds, List.length_append, List.length_singleton, List.range_succ, List.map_append]
      congr 1
      · refine List.map_congr_left fun owner howner => ?_
        rw [built_append (List.mem_range.mp howner)]
      · simp [built]
    rw [hdeeds, afterBuilds_concat, ← afterBuilds_length plugins]
    exact ih.addPlugin plugin

/-- What the build has made of the owner. -/
theorem afterBuilds_record {plugins : List (Plugin V)} {plugin : Plugin V}
    (h : plugins[owner]? = some plugin) :
    ∃ b, (afterBuilds plugins).records[owner]? = some b ∧
      ((built plugins owner).failed = true ∧ b.state = .retired ∧ b.inserted = [] ∨
        (built plugins owner).failed = false ∧ b.state = .active ∧
          b.startup = (built plugins owner).startup) := by
  refine ⟨_, afterBuilds_at h, ?_⟩
  let s : Scope V := ⟨(afterBuilds (plugins.take owner)).world, .new plugin.name⟩
  have hbuilt : built plugins owner = plugin.build.outcome s.world := by
    rw [built, h]
  have hend := addPlugin_eq plugin s
  rw [hbuilt]
  cases hfailed : (plugin.build.outcome s.world).failed with
  | true =>
    rw [hfailed, if_pos rfl] at hend
    rw [hend]
    exact .inl ⟨rfl, rollback_state _ _, rollback_inserted _ _⟩
  | false =>
    rw [hfailed, if_neg Bool.false_ne_true] at hend
    rw [hend]
    exact .inr ⟨rfl, (Took.build plugin.build s).state, (build_systems plugin.build s).1⟩

-- ---------------------------------------------------------------------------
-- Startup
-- ---------------------------------------------------------------------------

theorem isActive_afterBuilds {plugins : List (Plugin V)} (hlt : owner < plugins.length) :
    (afterBuilds plugins).isActive owner = !(built plugins owner).failed := by
  obtain ⟨b, hb, hcases⟩ := afterBuilds_record (List.getElem?_eq_getElem hlt)
  rw [App.isActive, hb]
  rcases hcases with ⟨hfailed, hstate, -⟩ | ⟨hfailed, hstate, -⟩ <;> simp [hfailed, hstate]

/-- The accounts when Startup has been through the first owners. -/
theorem startedTo_accounts (plugins : List (Plugin V)) (hk : k ≤ plugins.length) :
    ((afterBuilds plugins).forOwners ((List.range k).filter (afterBuilds plugins).isActive)
      Scope.runStartup).Accounts (buildDeeds plugins ++
        (List.range k).flatMap fun owner => (started plugins owner).map (·.by owner)) := by
  induction k with
  | zero => simpa [App.forOwners] using afterBuilds_accounts plugins
  | succ k ih =>
    have haccounts := ih (Nat.le_of_succ_le hk)
    obtain ⟨b, hb, hcases⟩ := afterBuilds_record (List.getElem?_eq_getElem hk)
    have hout : k ∉ (List.range k).filter (afterBuilds plugins).isActive := fun hin =>
      Nat.lt_irrefl k (List.mem_range.mp (List.mem_of_mem_filter hin))
    have hb' := (forOwners_other hout Scope.runStartup).trans hb
    rw [List.range_succ, List.filter_append, List.flatMap_append, ← List.append_assoc,
      List.flatMap_singleton, started]
    have hactive := isActive_afterBuilds hk
    rcases hcases with ⟨hfailed, -⟩ | ⟨hfailed, hstate, hstartup⟩
    · rw [hfailed, Bool.not_true] at hactive
      simpa [hfailed, hactive] using haccounts
    · rw [hfailed, Bool.not_false] at hactive
      rw [List.filter_cons_of_pos hactive, hfailed, if_neg Bool.false_ne_true, ← hstartup]
      simp only [App.forOwners, List.filter_nil, List.foldl_append, List.foldl_cons, List.foldl_nil]
      exact haccounts.runStartup hb' hstate

theorem afterStartup_accounts (plugins : List (Plugin V)) :
    (afterStartup plugins).Accounts (deeds plugins) := by
  have hend : afterStartup plugins = { (afterBuilds plugins).forOwners
      ((List.range plugins.length).filter (afterBuilds plugins).isActive) Scope.runStartup with
        startupCompleted := true } := by
    rw [afterStartup, App.runStartup, App.activeOwnerIds, afterBuilds_length]
  obtain ⟨hkept, hordered, howners⟩ := startedTo_accounts plugins (Nat.le_refl _)
  rw [hend]
  exact ⟨hkept, hordered, howners⟩

theorem afterStartup_length (plugins : List (Plugin V)) :
    (afterStartup plugins).records.length = plugins.length := by
  rw [← afterBuilds_length plugins]
  exact forOwners_length _ _ _

omit [DecidableEq T] in
theorem openGate_state (s : Scope V) : s.openGate.record.state = s.record.state := by
  unfold Scope.openGate
  split <;> rfl

/-- An owner that Startup gets to is rolled back if and only if a system fails. -/
theorem runStartup_state {s : Scope V} (hactive : s.record.state = .active) :
    s.runStartup.record.state = .retired ↔
      ∃ turn ∈ startupTurns s.record.startup s.world, turn.failed = true := by
  have htook := (Passed.runStartupSystems s.record.startup 0 s rfl).took
  rw [runStartup_eq, ← List.any_eq_true]
  split
  · next hfailed => exact ⟨fun _ => hfailed, fun _ => rollback_state _ _⟩
  · next hok =>
    rw [openGate_state, htook.state, hactive]
    exact ⟨nofun, fun hfailed => absurd hfailed hok⟩

/-- An owner is rolled back if and only if its code fails. -/
theorem retired_iff_fails {plugins : List (Plugin V)} {r : PluginRecord V}
    (hr : (afterStartup plugins).records[owner]? = some r) :
    r.state = .retired ↔ Fails plugins owner := by
  have hlt : owner < plugins.length := by
    rw [← afterStartup_length plugins]
    exact (List.getElem?_eq_some_iff.mp hr).1
  obtain ⟨b, hb, hcases⟩ := afterBuilds_record (List.getElem?_eq_getElem hlt)
  rcases hcases with ⟨hfailed, hretired, -⟩ | ⟨hfailed, hactive, hstartup⟩
  · cases hr.symm.trans (pass_skips Scope.runStartup hb hretired)
    exact ⟨fun _ => .inl hfailed, fun _ => hretired⟩
  · cases hr.symm.trans (pass_at Scope.runStartup hb hactive)
    rw [runStartup_state hactive, Fails, started, hfailed, if_neg Bool.false_ne_true, ← hstartup]
    simp

theorem isActive_iff_not_fails (plugins : List (Plugin V)) (hlt : owner < plugins.length) :
    (afterStartup plugins).isActive owner = true ↔ ¬ Fails plugins owner := by
  rw [← afterStartup_length plugins] at hlt
  have hr := List.getElem?_eq_getElem hlt
  rw [← retired_iff_fails hr, App.isActive, hr]
  cases hstate : (afterStartup plugins).records[owner].state <;> simp [hstate]

-- ---------------------------------------------------------------------------
-- Doing the same again
-- ---------------------------------------------------------------------------

def Build.insertAll : List (Entry V) → Build V → Build V
  | [], b => b
  | e :: rest, b => .insertResource e fun _ => insertAll rest b

def Build.addStartupSystems : List (StartupSystem V) → Build V → Build V
  | [], b => b
  | system :: rest, b => .addStartupSystem system (addStartupSystems rest b)

/-- A Startup system that changes and inserts what was in that turn. -/
def again (turn : Turn V) : StartupSystem V := fun _ =>
  ⟨turn.changes, turn.puts, [], .returned (.ok ())⟩

def panics : StartupSystem V := fun _ => ⟨fun _ v => v, [], [], .panicked⟩

/-- Inserts, changes and fails as the owner did, and does nothing else. -/
def onlyInserts (plugin : Plugin V) (built : Built V) (started : List (Turn V)) : Plugin V where
  name := plugin.name
  build := .insertAll built.puts <|
    if built.failed then .err (.other "build failed")
    else .addStartupSystems (started.map again ++ [panics]) .ok

theorem insertAll_outcome {puts : List (Entry V)} {w : Store V} (h : Fits w puts) (b : Build V) :
    (Build.insertAll puts b).outcome w =
      { b.outcome (w.putAll puts) with puts := puts ++ (b.outcome (w.putAll puts)).puts } := by
  induction puts generalizing w with
  | nil => rfl
  | cons e rest ih =>
    rw [Build.insertAll, Build.outcome, h.1, ih h.2]
    rfl

theorem addStartupSystems_outcome (systems : List (StartupSystem V)) (w : Store V) :
    (Build.addStartupSystems systems .ok).outcome w = { Built.ending false with
      startup := systems } := by
  induction systems with
  | nil => rfl
  | cons system rest ih => rw [Build.addStartupSystems, Build.outcome, ih]

theorem again_turn {turn : Turn V} {w : Store V} (h : Fits (w.change turn.changes) turn.puts) :
    (again turn).turn w = ⟨turn.toAct, [], false⟩ := by
  simp [StartupSystem.turn, again, Caught.failed, accepted_of_fits h]

theorem again_turns {turns : List (Turn V)} {w : Store V}
    (h : FitsAll w (turns.map Turn.toAct)) :
    startupTurns (turns.map again ++ [panics]) w =
      turns.map (fun turn => ⟨turn.toAct, [], false⟩) ++ [⟨Act.idle, [], true⟩] := by
  induction turns generalizing w with
  | nil => rfl
  | cons turn rest ih =>
    obtain ⟨hturn, hrest⟩ := h
    have hnext := ih hrest
    simp only [startupTurns] at hnext ⊢
    simp only [List.map_cons, List.cons_append, taken, again_turn hturn, hnext]
    rfl

/-- The same world, and the same ledger to take back. -/
structure Alike (s s' : Scope V) : Prop where
  world : s'.world = s.world
  inserted : s'.record.inserted = s.record.inserted

theorem Alike.took {s s' s₁ s₁' : Scope V} {turns turns' : List (Turn V)} (h : Alike s s')
    (htook : Took s s₁ turns) (htook' : Took s' s₁' turns')
    (hworld : s.world.perform (turns'.map Turn.toAct) = s.world.perform (turns.map Turn.toAct))
    (hputs : turns'.flatMap (·.puts) = turns.flatMap (·.puts)) : Alike s₁ s₁' where
  world := by rw [htook'.world, htook.world, h.world, hworld]
  inserted := by rw [htook'.inserted, htook.inserted, h.inserted, hputs]

theorem Alike.rollback {s s' : Scope V} (h : Alike s s') (main : Bool) :
    Alike (s.rollback main) (s'.rollback main) where
  world := by rw [rollback_world, rollback_world, h.world, h.inserted]
  inserted := by rw [rollback_inserted, rollback_inserted]

theorem onlyInserts_outcome (plugin : Plugin V) (w : Store V) (started : List (Turn V)) :
    (onlyInserts plugin (plugin.build.outcome w) started).build.outcome w =
      { Built.ending (plugin.build.outcome w).failed with
        puts := (plugin.build.outcome w).puts
        startup :=
          if (plugin.build.outcome w).failed then [] else started.map again ++ [panics] } := by
  rw [onlyInserts, insertAll_outcome (plugin.build.outcome_fits w)]
  split
  · next hfailed => simp [hfailed, Build.outcome, Built.ending, Act.idle]
  · next hok => simp [hok, addStartupSystems_outcome, Built.ending, Act.idle]

theorem addPlugin_again (plugin : Plugin V) (w : Store V) (started : List (Turn V)) :
    Alike (Scope.addPlugin plugin ⟨w, .new plugin.name⟩)
      (Scope.addPlugin (onlyInserts plugin (plugin.build.outcome w) started)
        ⟨w, .new plugin.name⟩) := by
  have houtcome := onlyInserts_outcome plugin w started
  have hbuilt : Alike (Scope.build plugin.build ⟨w, .new plugin.name⟩).1
      (Scope.build (onlyInserts plugin (plugin.build.outcome w) started).build
        ⟨w, .new plugin.name⟩).1 := by
    refine Alike.took ⟨rfl, rfl⟩ (.build plugin.build _) (.build _ _)
      (congrArg (fun act => w.perform [act]) (Act.ext ?_ ?_)) ?_
    · rw [houtcome]
      exact (plugin.build.outcome_changes w).symm
    · rw [houtcome]
    · simp [houtcome]
  have hfailed : ((onlyInserts plugin (plugin.build.outcome w) started).build.outcome w).failed =
      (plugin.build.outcome w).failed := by
    rw [houtcome]
    rfl
  rw [addPlugin_eq, addPlugin_eq]
  dsimp only
  rw [hfailed]
  split
  · exact hbuilt.rollback false
  · exact hbuilt

/-- Whoever takes the same turns and then panics leaves the world as it is once
the owner is rolled back. -/
theorem runStartup_again {s s' : Scope V} (h : Alike s s')
    (hfailed : (startupTurns s.record.startup s.world).any Turn.failed = true)
    (hstartup : s'.record.startup =
      (startupTurns s.record.startup s.world).map again ++ [panics]) :
    s'.runStartup.world = s.runStartup.world ∧ s'.runStartup.record.state = .retired ∧
      s'.runStartup.record.inserted = [] := by
  have htook := (Passed.runStartupSystems s.record.startup 0 s rfl).took
  have htook' := (Passed.runStartupSystems s'.record.startup 0 s' rfl).took
  have hturns : startupTurns s'.record.startup s'.world =
      (startupTurns s.record.startup s.world).map (fun turn => ⟨turn.toAct, [], false⟩) ++
        [⟨Act.idle, [], true⟩] := by
    rw [hstartup, h.world]
    exact again_turns htook.fits
  rw [hturns] at htook'
  have hfailed' : (startupTurns s'.record.startup s'.world).any Turn.failed = true := by
    simp [hturns]
  rw [runStartup_eq, runStartup_eq, if_pos hfailed, if_pos hfailed']
  refine ⟨((h.took htook htook' ?_ ?_).rollback true).world, rollback_state _ _,
    rollback_inserted _ _⟩
  · have hidle (w : Store V) : w.perform [(Act.idle : Act V)] = w := change_idle w
    rw [List.map_append, List.map_map, List.map_singleton]
    refine (List.foldl_append ..).trans ((hidle _).trans ?_)
    rfl
  · simp [List.flatMap_append, List.flatMap_map, Act.idle]

-- ---------------------------------------------------------------------------
-- Whole runs
-- ---------------------------------------------------------------------------

theorem SameBut.addPlugins {app app' : App V} (h : SameBut owner app app')
    (ho : owner < app.records.length) (plugins : List (Plugin V)) :
    SameBut owner (plugins.foldl App.addPlugin app) (plugins.foldl App.addPlugin app') := by
  induction plugins generalizing app app' with
  | nil => exact h
  | cons plugin rest ih =>
    refine ih ?_ (by rw [addPlugin_length]; exact Nat.lt_succ_of_lt ho)
    have hnew : SameBut owner { app with records := app.records ++ [PluginRecord.new plugin.name] }
        { app' with records := app'.records ++ [PluginRecord.new plugin.name] } := by
      refine ⟨h.world, by simp [h.length], fun o hne => ?_⟩
      simp only [List.getElem?_append, h.length, h.others o hne]
    unfold App.addPlugin
    rw [h.length]
    exact hnew.withOwner (Nat.ne_of_gt ho) _

theorem SameBut.runStartup {app app' : App V} {r r' : PluginRecord V} (h : SameBut owner app app')
    (hr : app.records[owner]? = some r) (hr' : app'.records[owner]? = some r')
    (hstate : r'.state = r.state)
    (hself : r.state = .active → (Scope.runStartup ⟨app.worldAt Scope.runStartup owner, r'⟩).world =
      (Scope.runStartup ⟨app.worldAt Scope.runStartup owner, r⟩).world) :
    SameBut owner app.runStartup app'.runStartup := by
  obtain ⟨hworld, hlength, hothers⟩ := h.pass hr hr' hstate hself
  exact ⟨hworld, hlength, hothers⟩

/-- The builds cannot be told apart. -/
theorem afterBuilds_set (plugins : List (Plugin V)) {plugin : Plugin V}
    (hplugin : plugins[owner]? = some plugin) (started : List (Turn V)) :
    SameBut owner (afterBuilds plugins)
      (afterBuilds (plugins.set owner (onlyInserts plugin (built plugins owner) started))) := by
  obtain ⟨hlt, rfl⟩ := List.getElem?_eq_some_iff.mp hplugin
  have hlength : (afterBuilds (plugins.take owner)).records.length = owner := by
    rw [afterBuilds_length, List.length_take_of_le (Nat.le_of_lt hlt)]
  have hafter (p : Plugin V) : afterBuilds (plugins.set owner p) =
      (plugins.drop (owner + 1)).foldl App.addPlugin
        ((afterBuilds (plugins.take owner)).addPlugin p) := by
    rw [List.set_eq_take_append_cons_drop, if_pos hlt, afterBuilds, List.foldl_append]
    rfl
  have hfirst := hafter plugins[owner]
  rw [List.set_getElem_self] at hfirst
  have hsame : SameBut owner ((afterBuilds (plugins.take owner)).addPlugin plugins[owner])
      ((afterBuilds (plugins.take owner)).addPlugin
        (onlyInserts plugins[owner] (built plugins owner) started)) := by
    refine ⟨?_, by rw [addPlugin_length, addPlugin_length], fun o ho => ?_⟩
    · rw [(addPlugin_new _ _).2, (addPlugin_new _ _).2, built, hplugin]
      exact (addPlugin_again _ _ started).world
    · rcases Nat.lt_or_gt_of_ne ho with hbefore | hafter
      · rw [← hlength] at hbefore
        rw [addPlugin_other hbefore, addPlugin_other hbefore]
      · rw [List.getElem?_eq_none (by rw [addPlugin_length, hlength]; exact hafter),
          List.getElem?_eq_none (by rw [addPlugin_length, hlength]; exact hafter)]
  rw [hfirst, hafter]
  exact hsame.addPlugins (by rw [addPlugin_length, hlength]; exact Nat.lt_succ_self owner) _

theorem built_set (plugins : List (Plugin V)) {plugin : Plugin V}
    (hplugin : plugins[owner]? = some plugin) (started : List (Turn V)) :
    built (plugins.set owner (onlyInserts plugin (built plugins owner) started)) owner =
      { Built.ending (built plugins owner).failed with
        puts := (built plugins owner).puts
        startup :=
          if (built plugins owner).failed then [] else started.map again ++ [panics] } := by
  have hlt := (List.getElem?_eq_some_iff.mp hplugin).1
  have hbuilt : built plugins owner =
      plugin.build.outcome (afterBuilds (plugins.take owner)).world := by
    rw [built, hplugin]
  conv_lhs => rw [built, List.getElem?_set_self hlt, List.take_set_of_le (Nat.le_refl owner)]
  dsimp only
  rw [hbuilt]
  exact onlyInserts_outcome plugin _ started

/-- What the frame compares: the world and all other owners; the owner itself
has been rolled back in the other run as well. -/
structure Framed (owner : Nat) (app app' : App V) : Prop where
  same : SameBut owner app app'
  rolledBack : ∃ r', app'.records[owner]? = some r' ∧ r'.state = .retired ∧ r'.inserted = []

theorem frame_of_fails (plugins : List (Plugin V)) {plugin : Plugin V}
    (hplugin : plugins[owner]? = some plugin) (hfails : Fails plugins owner) :
    Framed owner (afterStartup plugins) (afterStartup (plugins.set owner
      (onlyInserts plugin (built plugins owner) (started plugins owner)))) := by
  obtain ⟨b, hb, hcases⟩ := afterBuilds_record hplugin
  have hplugin' : (plugins.set owner (onlyInserts plugin (built plugins owner)
      (started plugins owner)))[owner]? = some (onlyInserts plugin (built plugins owner)
        (started plugins owner)) :=
    List.getElem?_set_self (List.getElem?_eq_some_iff.mp hplugin).1
  obtain ⟨b', hb', hcases'⟩ := afterBuilds_record hplugin'
  have hsame := afterBuilds_set plugins hplugin (started plugins owner)
  rw [built_set plugins hplugin] at hcases'
  rcases hcases with ⟨hfailed, hretired, -⟩ | ⟨hfailed, hactive, hstartup⟩
  · have hretired' : b'.state = .retired ∧ b'.inserted = [] := by
      rcases hcases' with ⟨-, hretired', hinserted'⟩ | ⟨hok, -⟩
      · exact ⟨hretired', hinserted'⟩
      · cases hfailed.symm.trans hok
    refine ⟨hsame.runStartup hb hb' (hretired'.1.trans hretired.symm) fun hactive => ?_, b',
      pass_skips Scope.runStartup hb' hretired'.1, hretired'⟩
    cases hretired.symm.trans hactive
  · have hactive' : b'.state = .active ∧
        b'.startup = (started plugins owner).map again ++ [panics] := by
      rcases hcases' with ⟨hfailed', -⟩ | ⟨-, hactive', hstartup'⟩
      · cases hfailed.symm.trans hfailed'
      · rw [hfailed, if_neg Bool.false_ne_true] at hstartup'
        exact ⟨hactive', hstartup'⟩
    have hstarted : started plugins owner =
        startupTurns b.startup ((afterBuilds plugins).worldAt Scope.runStartup owner) := by
      rw [started, hfailed, if_neg Bool.false_ne_true, hstartup]
    have hfails : (started plugins owner).any Turn.failed = true := by
      rw [List.any_eq_true]
      exact hfails.resolve_left (by simp [hfailed])
    have hinserted : b'.inserted = b.inserted := by
      cases hb.symm.trans (afterBuilds_at hplugin)
      cases hb'.symm.trans (afterBuilds_at hplugin')
      rw [List.take_set_of_le (Nat.le_refl owner), built, hplugin]
      exact (addPlugin_again _ _ _).inserted
    have halike : Alike ⟨(afterBuilds plugins).worldAt Scope.runStartup owner, b⟩
        ⟨(afterBuilds plugins).worldAt Scope.runStartup owner, b'⟩ := ⟨rfl, hinserted⟩
    obtain ⟨hworld, hretired⟩ :=
      runStartup_again halike (hstarted ▸ hfails) (hstarted ▸ hactive'.2)
    have hstate : b'.state = b.state := hactive'.1.trans hactive.symm
    refine ⟨hsame.runStartup hb hb' hstate fun _ => hworld, _,
      pass_at Scope.runStartup hb' hactive'.1, ?_⟩
    rw [hsame.worldAt (hsame.isActive hb hb' hstate)]
    exact hretired

/-- What the rollback of failing owners leaves behind once all plugins are added
and Startup has run. -/
structure RestoresWorld (plugins : List (Plugin V)) : Prop where
  retired : ∀ (owner : Nat) r, (afterStartup plugins).records[owner]? = some r →
    (r.state = .retired ↔ Fails plugins owner)
  present : ∀ t, ((afterStartup plugins).world t).isSome ↔
    ∃ (owner : Nat) (r : PluginRecord V), (afterStartup plugins).records[owner]? = some r ∧
      ¬ Fails plugins owner ∧ ∃ e ∈ r.inserted, e.typeId = t
  /-- A value is what an owner that has not failed inserted, as it was changed since. -/
  values : ∀ t v, (afterStartup plugins).world t = some v ↔
    Shows (¬ Fails plugins ·) (deeds plugins) t v
  ledgers : ∀ (owner : Nat) r, (afterStartup plugins).records[owner]? = some r →
    ¬ Fails plugins owner →
      r.inserted.map ResourceLedgerEntry.typeId = (keysOf owner (deeds plugins)).reverse
  once : ((afterStartup plugins).records.flatMap fun r =>
    r.inserted.map ResourceLedgerEntry.typeId).Nodup
  ordered : ∀ r ∈ (afterStartup plugins).records, Ordered r.inserted
  emptied : ∀ (owner : Nat) r, (afterStartup plugins).records[owner]? = some r →
    Fails plugins owner → r.inserted = []
  frame : ∀ (owner : Nat) plugin, plugins[owner]? = some plugin → Fails plugins owner →
    Framed owner (afterStartup plugins) (afterStartup (plugins.set owner
      (onlyInserts plugin (built plugins owner) (started plugins owner))))

theorem deeds_owners {plugins : List (Plugin V)} (h : d ∈ deeds plugins) :
    d.owner < plugins.length := by
  have howners := (afterStartup_accounts plugins).owners d h
  rwa [afterStartup_length] at howners

theorem rollback_restores_world (plugins : List (Plugin V)) : RestoresWorld plugins := by
  have haccounts := afterStartup_accounts plugins
  have hstanding (owner : Nat) {r : PluginRecord V}
      (hr : (afterStartup plugins).records[owner]? = some r) :
      r.state = .active ↔ ¬ Fails plugins owner := by
    rw [← retired_iff_fails hr]
    cases r.state <;> simp
  have hactive (owner : Nat) {r : PluginRecord V}
      (hr : (afterStartup plugins).records[owner]? = some r) :
      (afterStartup plugins).isActive owner = true ↔ ¬ Fails plugins owner := by
    rw [← hstanding owner hr]
    simp [App.isActive, hr]
  refine ⟨fun owner r => retired_iff_fails, fun t => ?_, fun t v => ?_,
    fun owner r hr hok => ?_, haccounts.once, haccounts.ordered, fun owner r hr hfails => ?_,
    fun owner plugin => frame_of_fails plugins⟩
  · rw [haccounts.present]
    refine exists_congr fun owner => exists_congr fun r => and_congr_right fun hr => ?_
    rw [hstanding owner hr]
  · rw [haccounts.kept.values]
    constructor
    · exact fun h => h.mono fun d hd => (isActive_iff_not_fails plugins (deeds_owners hd)).mp
    · exact fun h => h.mono fun d hd => (isActive_iff_not_fails plugins (deeds_owners hd)).mpr
  · rw [← haccounts.kept.written owner ((hactive owner hr).mpr hok), ledger_of_record hr]
  · have hempty := haccounts.kept.withdrawn owner fun hin => (hactive owner hr).mp hin hfails
    rw [ledger_of_record hr] at hempty
    exact List.map_eq_nil_iff.mp hempty

/-- What an owner's code has inserted, rolled back or not. -/
def insertedBy (plugins : List (Plugin V)) (owner : Nat) : List (Entry V) :=
  (built plugins owner).puts ++ (started plugins owner).flatMap (·.puts)

/-- The world has just what the owners that have not failed inserted. -/
def AsInserted (plugins : List (Plugin V)) : Prop :=
  ∀ t v, (afterStartup plugins).world t = some v ↔
    ∃ owner, ¬ Fails plugins owner ∧ ⟨t, v⟩ ∈ insertedBy plugins owner

/-- The second plugin's Startup system changes what the first has inserted. -/
def changedInPlace : List (Plugin fun _ : Unit => Nat) :=
  [⟨"first", .insertResource ⟨(), 1⟩ fun _ => .ok⟩,
    ⟨"second", .addStartupSystem (fun _ => ⟨fun _ n => n + 1, [], [], .returned (.ok ())⟩) .ok⟩]

theorem not_asInserted : ¬ AsInserted changedInPlace := by
  intro h
  obtain ⟨owner, -, hin⟩ := (h () 2).mp rfl
  match owner with
  | 0 =>
    have hfirst : insertedBy changedInPlace 0 = [⟨(), 1⟩] := rfl
    simp [hfirst] at hin
  | 1 =>
    have hsecond : insertedBy changedInPlace 1 = [] := rfl
    simp [hsecond] at hin
  | owner + 2 =>
    have hnone : insertedBy changedInPlace (owner + 2) = [] := rfl
    simp [hnone] at hin

/-- The second plugin's insert conflicts and it fails; the third one's goes
through once the first has been rolled back. -/
example : (afterStartup
    [⟨"first", .insertResource ⟨(), 1⟩ fun _ => .addStartupSystem panics .ok⟩,
      ⟨"second", .insertResource ⟨(), 2⟩ fun
        | .ok _ => .ok
        | .error e => .err e⟩,
      ⟨"third", .addStartupSystem (again ⟨⟨fun _ v => v, [⟨(), 3⟩]⟩, [], false⟩) .ok⟩] :
    App fun _ : Unit => Nat).world () = some 3 := rfl

end ShinySongTools.Runtime
