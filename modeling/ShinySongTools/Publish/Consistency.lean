import ShinySongTools.Publish.Transaction

/-!
# What a stopped publish leaves

Every primitive is one lemma about what it does to what it holds, whatever the
run meets. From these come what a run leaves, wherever it stops, and what a
sequence of runs does.
-/

namespace ShinySongTools.Publish

open Effects

-- ---------------------------------------------------------------------------
-- Programs that meet faults
-- ---------------------------------------------------------------------------

/-- Started over `a`, whatever is met, `m` returns as `post` says or stops as
`stopped` says. -/
def Does (m : M α β) (a : α) (post : β → α → Prop) (stopped : Stop → α → Prop) : Prop :=
  ∀ faults, Ends m { held := a, faults } (fun b w => post b w.held) fun stop w =>
    stopped stop w.held

/-- A stop at a primitive with this message. -/
def Stop.At (message : String) (stop : Stop) : Prop := stop = .killed ∨ stop = .failed message

section

variable {α β γ : Type} {m : M α β} {a : α} {post : β → α → Prop}
    {stopped stopped' : Stop → α → Prop}

theorem Does.mono {post' : β → α → Prop} (h : Does m a post stopped)
    (hpost : ∀ b a', post b a' → post' b a')
    (hstop : ∀ stop a', stopped stop a' → stopped' stop a') :
    Does m a post' stopped' :=
  fun faults => (h faults).mono (fun b w => hpost b w.held) fun stop w => hstop stop w.held

theorem Does.pure {b : β} (h : post b a) : Does (pure b) a post stopped := fun _ => Ends.pure h

theorem Does.throw {message : String} (h : stopped (.failed message) a) :
    Does (throw (.failed message)) a post stopped := fun _ => Ends.throw h

theorem Does.bind {R : β → α → Prop} {f : β → M α γ} {post : γ → α → Prop} (h : Does m a R stopped)
    (hf : ∀ b a', R b a' → Does (f b) a' post stopped) : Does (m >>= f) a post stopped :=
  fun faults => (h faults).bind fun b w hb => hf b w.held hb w.faults

theorem Does.when {c : Prop} [Decidable c] {m : M α Unit} {post : Unit → α → Prop}
    (hthen : c → Does m a post stopped) (helse : ¬ c → post () a) :
    Does (when c m) a post stopped :=
  fun faults => Ends.when (fun hc => hthen hc faults) helse

theorem Does.held_bind {f : α → M α β} (h : Does (f a) a post stopped) :
    Does (held >>= f) a post stopped := h

theorem Does.change {f : α → α} {post : Unit → α → Prop} (h : post () (f a)) :
    Does (change f) a post stopped := fun _ => Ends.modify h

theorem Does.attempt {message : String} {partly : Option Node → α → α} {R : Unit → α → Prop}
    (hstop : ∀ stop left, stop.At message → stopped stop (partly left a)) (h : R () a) :
    Does (attempt message partly) a R stopped := by
  intro faults
  refine Ends.get_bind ?_
  cases faults with
  | nil => exact h
  | cons fault faults =>
    cases fault with
    | none => exact h
    | some fault =>
      refine Ends.set_bind (Ends.throw ?_)
      dsimp only
      split
      · exact hstop .killed fault.left (.inl rfl)
      · exact hstop (.failed message) fault.left (.inr rfl)

theorem Does.attempt_bind {message : String} {partly : Option Node → α → α} {f : Unit → M α β}
    (hstop : ∀ stop left, stop.At message → stopped stop (partly left a))
    (h : Does (f ()) a post stopped) : Does (Publish.attempt message partly >>= f) a post stopped :=
  (Does.attempt (R := fun _ a' => a' = a) hstop rfl).bind fun _ _ heq => heq ▸ h

theorem Does.step {message : String} {R : Unit → α → Prop}
    (hstop : ∀ stop, stop.At message → stopped stop a) (h : R () a) :
    Does (step message) a R stopped :=
  Does.attempt (fun stop _ => hstop stop) h

theorem Does.step_bind {message : String} {f : Unit → M α β}
    (hstop : ∀ stop, stop.At message → stopped stop a) (h : Does (f ()) a post stopped) :
    Does (Publish.step message >>= f) a post stopped :=
  Does.attempt_bind (fun stop _ => hstop stop) h

end

-- ---------------------------------------------------------------------------
-- Places
-- ---------------------------------------------------------------------------

structure Place.Lawful (place : Place α) : Prop where
  find_put : ∀ node a, place.find (place.put node a) = some node
  put_put : ∀ node node' a, place.put node' (place.put node a) = place.put node' a

/-- At most the place has changed. -/
def Place.Touched (place : Place α) (a a' : α) : Prop := a' = a ∨ ∃ node, a' = place.put node a

theorem lawful_path (p : Path) : p.place.Lawful := by
  refine ⟨fun node root => ?_, fun node node' root => ?_⟩
  · simp only [Path.place, Function.update_self]
  · simp only [Path.place, Function.update_idem]

theorem Dir.find_put (name : Bytes) (node : Node) (dir : Dir) :
    (dir.put name node).find name = some node := by
  cases dir with
  | nil => rw [Dir.put, Dir.find, if_pos rfl]
  | cons name' node' rest =>
    by_cases h : name' = name
    · rw [Dir.put, if_pos h, Dir.find, if_pos rfl]
    · rw [Dir.put, if_neg h, Dir.find, if_neg h, Dir.find_put name node rest]

theorem Dir.put_put (name : Bytes) (node node' : Node) (dir : Dir) :
    (dir.put name node).put name node' = dir.put name node' := by
  cases dir with
  | nil => exact if_pos rfl
  | cons name' node'' rest =>
    by_cases h : name' = name
    · rw [Dir.put, if_pos h, Dir.put, if_pos rfl, Dir.put, if_pos h]
    · rw [Dir.put, if_neg h, Dir.put, if_neg h, Dir.put, if_neg h, Dir.put_put name node node' rest]

theorem lawful_entry (name : Bytes) : (entry name).Lawful := ⟨Dir.find_put name, Dir.put_put name⟩

theorem Dir.find_eq_none {name : Bytes} {dir : Dir} (h : name ∉ dir.names) :
    dir.find name = none := by
  cases dir with
  | nil => rfl
  | cons name' node rest =>
    obtain ⟨hne, hrest⟩ := not_or.mp (List.mem_cons.not.mp h)
    rw [Dir.find, if_neg (Ne.symm hne), Dir.find_eq_none hrest]

def Dir.append : Dir → Dir → Dir
  | .nil, dir' => dir'
  | .cons name node rest, dir' => .cons name node (rest.append dir')

theorem Dir.append_nil (dir : Dir) : dir.append .nil = dir := by
  cases dir with
  | nil => rfl
  | cons name node rest => rw [Dir.append, Dir.append_nil rest]

theorem Dir.put_append {name : Bytes} {dir : Dir} (node : Node) (rest : Dir)
    (h : name ∉ dir.names) :
    (dir.put name node).append rest = dir.append (.cons name node rest) := by
  cases dir with
  | nil => rfl
  | cons name' node' dir =>
    obtain ⟨hne, hdir⟩ := not_or.mp (List.mem_cons.not.mp h)
    rw [Dir.put, if_neg (Ne.symm hne), Dir.append, Dir.put_append node rest hdir, Dir.append]

theorem Dir.names_put {name : Bytes} {node : Node} {dir : Dir} {name' : Bytes}
    (h : name' ∈ (dir.put name node).names) : name' = name ∨ name' ∈ dir.names := by
  cases dir with
  | nil => exact .inl (List.mem_singleton.mp h)
  | cons name'' node' rest =>
    rw [Dir.put] at h
    split at h
    · obtain rfl | h := List.mem_cons.mp h
      · exact .inl rfl
      · exact .inr (List.mem_cons_of_mem _ h)
    · obtain rfl | h := List.mem_cons.mp h
      · exact .inr List.mem_cons_self
      · exact (Dir.names_put h).imp id (List.mem_cons_of_mem _)

-- ---------------------------------------------------------------------------
-- Copies are complete
-- ---------------------------------------------------------------------------

section

variable {α : Type} {place : Place α} {a : α}

theorem createDirPath_does (hfree : place.find a = none) :
    Does (createDirPath place) a (fun _ a' => a' = place.put (.directory .nil) a)
      fun stop a' => stop.At copyFailed ∧ a' = a := by
  refine Does.step_bind (fun _ hstop => ⟨hstop, rfl⟩) (Does.held_bind ?_)
  rw [hfree]
  exact Does.change rfl

theorem writeFile_does {message : String} {content : Bytes}
    (hfile : ∀ dir, place.find a ≠ some (.directory dir)) :
    Does (writeFile place message content) a (fun _ a' => a' = place.put (.file content) a)
      fun stop a' => stop.At message ∧ place.Touched a a' := by
  have htouched (left : Option Node) : place.Touched a (left.elim a (place.put · a)) := by
    cases left with
    | none => exact .inl rfl
    | some node => exact .inr ⟨node, rfl⟩
  refine Does.attempt_bind (fun _ left hstop => ⟨hstop, htouched left⟩) (Does.held_bind ?_)
  split
  · next dir hdir => exact absurd hdir (hfile dir)
  · exact Does.change rfl

theorem copyFile_does {content : Bytes} (hfree : place.find a = none) :
    Does (copyFile place content) a (fun _ a' => a' = place.put (.file content) a)
      fun stop a' => stop.At copyFailed ∧ place.Touched a a' := by
  refine Does.step_bind (fun _ hstop => ⟨hstop, .inl rfl⟩) ?_
  split
  · have hfile (dir : Dir) : place.find a ≠ some (.directory dir) := by
      rw [hfree]
      exact nofun
    refine (writeFile_does hfile).bind ?_
    rintro _ _ rfl
    exact Does.step (fun _ hstop => ⟨hstop, .inr ⟨_, rfl⟩⟩) rfl
  · exact Does.throw ⟨.inr rfl, .inl rfl⟩

theorem inside_does {m : M Dir Unit} {dir : Dir} {post : Unit → α → Prop}
    {stopped : Stop → α → Prop}
    (hdir : place.find a = some (.directory dir))
    (h : Does m dir (fun b dir' => post b (place.put (.directory dir') a))
      fun stop dir' => stopped stop (place.put (.directory dir') a)) :
    Does (inside place m) a post stopped := by
  intro faults
  have hm := h faults
  unfold Ends at hm ⊢
  simp only [inside, hdir, ExceptT.run, StateT.run] at hm ⊢
  split at hm
  · next heq => rwa [heq]
  · next heq => rwa [heq]

theorem copyInto_does {m : M Dir Unit} {dir : Dir} (hplace : place.Lawful)
    (hfree : place.find a = none)
    (h : Does m .nil (fun _ dir' => dir' = dir) fun stop _ => stop.At copyFailed) :
    Does (copyInto place m) a (fun _ a' => a' = place.put (.directory dir) a)
      fun stop a' => stop.At copyFailed ∧ place.Touched a a' := by
  refine ((createDirPath_does hfree).mono (fun _ _ => id) fun stop a' h => ⟨h.1, .inl h.2⟩).bind ?_
  rintro _ _ rfl
  refine Does.step_bind (fun _ hstop => ⟨hstop, .inr ⟨_, rfl⟩⟩) ?_
  refine inside_does (hplace.find_put _ _) (h.mono ?_ ?_)
  · rintro _ _ rfl
    exact hplace.put_put _ _ _
  · intro stop dir' hstop
    exact ⟨hstop, .inr ⟨_, hplace.put_put _ _ _⟩⟩

end

mutual

theorem copyEntry_does {name : Bytes} {node : Node} {dir : Dir} (hvalid : node.Valid)
    (hnew : name ∉ dir.names) :
    Does (copyEntry name node) dir (fun _ dir' => dir' = dir.put name node)
      fun stop _ => stop.At copyFailed := by
  have hfree : (entry name).find dir = none := Dir.find_eq_none hnew
  cases node with
  | file content =>
    rw [copyEntry]
    exact (copyFile_does hfree).mono (fun _ _ => id) fun _ _ h => h.1
  | directory children =>
    rw [copyEntry]
    have hcopy := @copyEntries_does children .nil hvalid fun _ _ => List.not_mem_nil
    exact (copyInto_does (lawful_entry name) hfree hcopy).mono (fun _ _ => id) fun _ _ h => h.1
  | other =>
    rw [copyEntry]
    exact Does.throw (.inr rfl)

/-- The entries stand behind what is there, in their order. -/
theorem copyEntries_does {src dir : Dir} (hvalid : src.Valid)
    (hnew : ∀ name ∈ src.names, name ∉ dir.names) :
    Does (copyEntries src) dir (fun _ dir' => dir' = dir.append src)
      fun stop _ => stop.At copyFailed := by
  cases src with
  | nil =>
    rw [copyEntries]
    exact Does.step (fun _ => id) dir.append_nil.symm
  | cons name node rest =>
    obtain ⟨⟨-, -, hname⟩, hnode, hrest⟩ := hvalid
    obtain ⟨hnew, hnews⟩ := List.forall_mem_cons.mp hnew
    rw [copyEntries]
    refine Does.step_bind (fun _ => id) ((copyEntry_does hnode hnew).bind ?_)
    rintro _ _ rfl
    refine (copyEntries_does hrest ?_).mono ?_ fun _ _ => id
    · intro name' hmem hmem'
      obtain rfl | hdir := Dir.names_put hmem'
      · exact hname hmem
      · exact hnews name' hmem hdir
    · rintro _ _ rfl
      exact Dir.put_append node rest hnew

end

-- ---------------------------------------------------------------------------
-- The primitives of the transaction
-- ---------------------------------------------------------------------------

/-- At most this path has changed. -/
def SameBut (p : Path) (root root' : Root) : Prop := ∀ q, q ≠ p → root' q = root q

theorem SameBut.update (p : Path) (root : Root) (node : Option Node) :
    SameBut p root (Function.update root p node) :=
  fun _ hne => Function.update_of_ne hne node root

theorem SameBut.of_touched {p : Path} {root root' : Root} (h : p.place.Touched root root') :
    SameBut p root root' := by
  obtain rfl | ⟨node, rfl⟩ := h
  · exact fun _ _ => rfl
  · exact SameBut.update p root _

section

variable {sha256 : Bytes → Bytes} {root : Root}

theorem deleteTree_does {message : String} {p : Path} :
    Does (deleteTree message p) root (fun _ root' => root' = Function.update root p none)
      fun stop root' => stop.At message ∧ SameBut p root root' :=
  Does.attempt_bind (fun _ _ hstop => ⟨hstop, SameBut.update p root _⟩) (Does.change rfl)

theorem copyDir_does {src : Option Node} {dst : Path} (hvalid : ∀ node ∈ src, node.Valid)
    (hfree : root dst = none) :
    Does (copyDir src dst) root
      (fun _ root' => ∃ dir, src = some (.directory dir) ∧
        root' = Function.update root dst (some (.directory dir)))
      fun _ root' => SameBut dst root root' := by
  unfold copyDir
  split
  · next children =>
    have hcopy := @copyEntries_does children .nil (hvalid _ rfl) fun _ _ => List.not_mem_nil
    refine (copyInto_does (lawful_path dst) hfree hcopy).mono ?_ fun _ _ h => .of_touched h.2
    rintro _ _ rfl
    exact ⟨children, rfl, rfl⟩
  · refine (createDirPath_does hfree).mono (fun _ _ => id) ?_ |>.bind ?_
    · rintro _ _ ⟨-, rfl⟩
      exact fun _ _ => rfl
    · rintro _ _ rfl
      exact Does.throw (SameBut.update dst root _)

theorem rename_does {message : String} {src dst : Path} :
    Does (rename message src dst) root
      (fun found root' => (found = false ∧ root src = none ∧ root' = root) ∨
        ∃ node, found = true ∧ root src = some node ∧
          root' = Function.update (Function.update root src none) dst (some node))
      fun stop root' => stop.At message ∧ root' = root := by
  refine Does.step_bind (fun _ hstop => ⟨hstop, rfl⟩) (Does.held_bind ?_)
  cases hsrc : root src with
  | none => exact Does.pure (.inl ⟨rfl, rfl, rfl⟩)
  | some node =>
    dsimp only
    split
    · refine (Does.change rfl).bind (R := fun _ root' => root' = _) ?_
      rintro _ _ rfl
      exact Does.pure (.inr ⟨node, rfl, rfl, rfl⟩)
    · exact Does.throw ⟨.inr rfl, rfl⟩

theorem renamed_does {message : String} {src dst : Path} {node : Node}
    (hsrc : root src = some node) :
    Does (renamed message src dst) root
      (fun _ root' => root' = Function.update (Function.update root src none) dst (some node))
      fun stop root' => stop.At message ∧ root' = root := by
  refine rename_does.bind ?_
  rintro _ _ (⟨-, hnone, -⟩ | ⟨node', rfl, hsrc', rfl⟩)
  · rw [hsrc] at hnone
    cases hnone
  · rw [hsrc] at hsrc'
    cases hsrc'
    exact Does.pure rfl

theorem readManifest_does {input : Input} :
    Does (readManifest input) root
      (fun manifest root' => input.manifest = some manifest ∧ root' = root)
      fun _ root' => root' = root := by
  refine Does.step_bind (fun _ _ => rfl) ?_
  cases input.manifest with
  | none => exact Does.throw rfl
  | some bytes =>
    dsimp only
    split
    · exact Does.pure ⟨rfl, rfl⟩
    · exact Does.throw rfl

theorem verifyStage_does {manifest : Bytes} {bundle : Dir}
    (hstage : root .stageBundle = some (.directory bundle)) :
    Does (verifyStage sha256 manifest) root
      (fun _ root' => verifyEntries sha256 bundle manifest = true ∧ root' = root)
      fun _ root' => root' = root := by
  refine Does.step_bind (fun _ _ => rfl) (Does.held_bind ?_)
  rw [hstage]
  dsimp only
  split
  · exact Does.pure ⟨‹_›, rfl⟩
  · exact Does.throw rfl

end

-- ---------------------------------------------------------------------------
-- A run
-- ---------------------------------------------------------------------------

section

variable (sha256 : Bytes → Bytes) (input : Input)

/-- The content and the manifest of an input that was verified. -/
structure Pair (bundle : Dir) (manifest : Bytes) : Prop where
  content : input.bundle = some (.directory bundle)
  sidecar : input.manifest = some manifest
  verified : verifyEntries sha256 bundle manifest = true

/-- The complete pair of the input is at the final paths. -/
def Published (root : Root) : Prop :=
  ∃ bundle manifest, Pair sha256 input bundle manifest ∧
    root .finalBundle = some (.directory bundle) ∧ root .finalManifest = some (.file manifest)

/-- A stop at a primitive between the first rename and that of the sidecar. -/
def Stop.Between (stop : Stop) : Prop :=
  stop.At "cannot publish the staged bundle" ∨ stop.At "cannot create staged manifest" ∨
    stop.At "cannot write staged manifest" ∨ stop.At "cannot publish the staged manifest"

/-- What is at the final paths where a run stops. -/
inductive Leaves (before : Root) (stop : Stop) (root : Root) : Prop
  | unchanged : root .finalBundle = before .finalBundle →
    root .finalManifest = before .finalManifest → Leaves before stop root
  /-- The bundle that was there is aside, and none or the new one in its place. -/
  | between : stop.Between → root .oldBundle = before .finalBundle →
    root .finalManifest = before .finalManifest →
    (root .finalBundle = none ∨ ∃ bundle manifest, Pair sha256 input bundle manifest ∧
      root .finalBundle = some (.directory bundle)) → Leaves before stop root
  | published : Published sha256 input root → Leaves before stop root

/-- Before the first rename. -/
structure Staged (before : Root) (bundle : Dir) (manifest : Bytes) (root : Root) : Prop where
  pair : Pair sha256 input bundle manifest
  stage : root .stageBundle = some (.directory bundle)
  old : root .oldBundle = none
  stageManifest : root .stageManifest = none
  final : root .finalBundle = before .finalBundle
  sidecar : root .finalManifest = before .finalManifest

/-- Between the second rename and that of the sidecar. -/
structure Unsealed (before : Root) (bundle : Dir) (manifest : Bytes) (root : Root) : Prop where
  pair : Pair sha256 input bundle manifest
  final : root .finalBundle = some (.directory bundle)
  old : root .oldBundle = before .finalBundle
  stageManifest : ∀ dir, root .stageManifest ≠ some (.directory dir)
  sidecar : root .finalManifest = before .finalManifest

end

section

variable {sha256 : Bytes → Bytes} {input : Input} {before root : Root} {bundle : Dir}
    {manifest : Bytes}

theorem stage_does :
    Does (stage sha256 input) before
      (fun manifest root => ∃ bundle, Staged sha256 input before bundle manifest root)
      (Leaves sha256 input before) := by
  refine Does.step_bind (fun _ _ => .unchanged rfl rfl)
    (Does.step_bind (fun _ _ => .unchanged rfl rfl) ?_)
  refine (deleteTree_does.mono (fun _ _ => id) ?_).bind ?_
  · exact fun _ _ h => .unchanged (h.2 _ nofun) (h.2 _ nofun)
  rintro _ _ rfl
  refine (deleteTree_does.mono (fun _ _ => id) ?_).bind ?_
  · exact fun _ _ h => .unchanged (h.2 _ nofun) (h.2 _ nofun)
  rintro _ _ rfl
  refine (deleteTree_does.mono (fun _ _ => id) ?_).bind ?_
  · exact fun _ _ h => .unchanged (h.2 _ nofun) (h.2 _ nofun)
  rintro _ _ rfl
  refine ((copyDir_does input.valid ?_).mono (fun _ _ => id) ?_).bind ?_
  · rfl
  · exact fun _ _ h => .unchanged (h _ nofun) (h _ nofun)
  rintro _ _ ⟨bundle, hbundle, rfl⟩
  refine (readManifest_does.mono (fun _ _ => id) ?_).bind ?_
  · rintro _ _ rfl
    exact .unchanged rfl rfl
  rintro manifest _ ⟨hmanifest, rfl⟩
  refine ((@verifyStage_does sha256 _ manifest bundle rfl).mono (fun _ _ => id) ?_).bind ?_
  · rintro _ _ rfl
    exact .unchanged rfl rfl
  rintro _ _ ⟨hverified, rfl⟩
  exact Does.pure ⟨bundle, ⟨hbundle, hmanifest, hverified⟩, rfl, rfl, rfl, rfl, rfl⟩

theorem publishBundle_does (h : Staged sha256 input before bundle manifest root) :
    Does publishBundle root (fun _ root' => Unsealed sha256 input before bundle manifest root')
      (Leaves sha256 input before) := by
  have hunsealed {root' : Root} (hold : root' .oldBundle = before .finalBundle)
      (hstage : root' .stageBundle = some (.directory bundle)) (hfinal : root' .finalBundle = none)
      (hstageManifest : root' .stageManifest = none)
      (hmanifest : root' .finalManifest = before .finalManifest) (oldMoved : Bool) :
      Does
        (do renamed "cannot publish the staged bundle" .stageBundle .finalBundle; return oldMoved)
        root' (fun _ root' => Unsealed sha256 input before bundle manifest root')
        (Leaves sha256 input before) := by
    refine ((renamed_does hstage).mono (fun _ _ => id) ?_).bind ?_
    · rintro stop _ ⟨hstop, rfl⟩
      exact .between (.inl hstop) hold hmanifest (.inl hfinal)
    · rintro _ _ rfl
      refine Does.pure ⟨h.pair, rfl, hold, fun dir hdir => ?_, hmanifest⟩
      exact absurd (hstageManifest.symm.trans hdir) nofun
  refine (rename_does.mono (fun _ _ => id) ?_).bind ?_
  · rintro _ _ ⟨-, rfl⟩
    exact .unchanged h.final h.sidecar
  rintro oldMoved _ (⟨-, hnone, rfl⟩ | ⟨node, -, hnode, rfl⟩)
  · exact hunsealed (h.old.trans (hnone.symm.trans h.final)) h.stage hnone h.stageManifest h.sidecar
      oldMoved
  · have hold : some node = before .finalBundle := hnode.symm.trans h.final
    refine hunsealed ?_ ?_ ?_ ?_ ?_ oldMoved
    · exact hold
    · exact h.stage
    · rfl
    · exact h.stageManifest
    · exact h.sidecar

theorem Unsealed.between {stop : Stop} {root' : Root}
    (h : Unsealed sha256 input before bundle manifest root) (hstop : stop.Between)
    (hsame : SameBut .stageManifest root root') : Leaves sha256 input before stop root' := by
  refine .between hstop ?_ ?_ (.inr ⟨bundle, manifest, h.pair, ?_⟩)
  · exact (hsame .oldBundle nofun).trans h.old
  · exact (hsame .finalManifest nofun).trans h.sidecar
  · exact (hsame .finalBundle nofun).trans h.final

theorem publishManifest_does (h : Unsealed sha256 input before bundle manifest root) :
    Does (publishManifest manifest) root (fun _ root' => Published sha256 input root')
      (Leaves sha256 input before) := by
  let written (content : Bytes) := Path.stageManifest.place.put (.file content) root
  have hfree (content : Bytes) (dir : Dir) :
      written content .stageManifest ≠ some (.directory dir) := by
    have hfile : written content .stageManifest = some (.file content) :=
      (lawful_path .stageManifest).find_put (.file content) root
    rw [hfile]
    exact nofun
  have hsame (content : Bytes) : SameBut .stageManifest root (written content) :=
    SameBut.update .stageManifest root _
  refine ((writeFile_does h.stageManifest).mono (fun _ _ => id) ?_).bind ?_
  · rintro stop root' ⟨hstop, htouched⟩
    exact h.between (.inr (.inl hstop)) (.of_touched htouched)
  rintro _ _ rfl
  refine ((writeFile_does (hfree [])).mono (fun _ _ => id) ?_).bind ?_
  · rintro stop root' ⟨hstop, htouched⟩
    refine h.between (.inr (.inr (.inl hstop))) fun q hq => ?_
    exact (SameBut.of_touched htouched q hq).trans (hsame [] q hq)
  rintro _ _ rfl
  rw [(lawful_path .stageManifest).put_put]
  refine (renamed_does ((lawful_path .stageManifest).find_put (.file manifest) root)).mono ?_ ?_
  · rintro _ _ rfl
    exact ⟨bundle, manifest, h.pair, h.final, rfl⟩
  · rintro stop _ ⟨hstop, rfl⟩
    exact h.between (.inr (.inr (.inr hstop))) (hsame manifest)

/-- What a run does, wherever it stops. -/
theorem publish_does (before : Root) :
    Does (publish sha256 input) before (fun _ root => Published sha256 input root)
      (Leaves sha256 input before) := by
  refine stage_does.bind ?_
  rintro manifest root ⟨bundle, hstaged⟩
  refine (publishBundle_does hstaged).bind ?_
  intro oldMoved root hunsealed
  refine (publishManifest_does hunsealed).bind ?_
  rintro _ root ⟨bundle, manifest, hpair, hfinal, hsidecar⟩
  have hkept {root' : Root} (hsame : SameBut .oldBundle root root') :
      Published sha256 input root' :=
    ⟨bundle, manifest, hpair, (hsame .finalBundle nofun).trans hfinal,
      (hsame .finalManifest nofun).trans hsidecar⟩
  refine Does.bind (R := fun _ => Published sha256 input) ?_ fun _ root' hpublished => ?_
  · refine Does.when (fun _ => deleteTree_does.mono ?_ ?_) fun _ => hkept fun _ _ => rfl
    · rintro _ _ rfl
      exact hkept (SameBut.update .oldBundle root none)
    · exact fun stop root' h => .published (hkept h.2)
  · exact Does.step (fun _ _ => .published hpublished) hpublished

end

-- ---------------------------------------------------------------------------
-- Sequences of runs
-- ---------------------------------------------------------------------------

variable {sha256 : Bytes → Bytes}

theorem Run.published (run : Run) (before : Root) (h : (run.outcome sha256 before).1 = .ok ()) :
    Published sha256 run.input (run.leaves sha256 before) := by
  have hends := @publish_does sha256 run.input before run.faults
  unfold Run.outcome at h
  unfold Ends at hends
  split at hends
  · next heq => rwa [Run.leaves, Run.outcome, heq]
  · next heq =>
    rw [heq] at h
    cases h

theorem Run.stopped (run : Run) (before : Root) {stop : Stop}
    (h : (run.outcome sha256 before).1 = .error stop) :
    Leaves sha256 run.input before stop (run.leaves sha256 before) := by
  have hends := @publish_does sha256 run.input before run.faults
  unfold Run.outcome at h
  unfold Ends at hends
  split at hends
  · next heq =>
    rw [heq] at h
    cases h
  · next heq =>
    rw [heq] at h
    cases h
    rwa [Run.leaves, Run.outcome, heq]

theorem Run.cases (run : Run) (before : Root) :
    (run.outcome sha256 before).1 = .ok () ∨
      ∃ stop, (run.outcome sha256 before).1 = .error stop := by
  cases (run.outcome sha256 before).1 with
  | ok => exact .inl rfl
  | error stop => exact .inr ⟨stop, rfl⟩

/-- What is at the final paths was copied and verified as a whole. -/
structure Whole (sha256 : Bytes → Bytes) (runs : List Run) (root : Root) : Prop where
  bundle : ∀ node, root .finalBundle = some node → ∃ run ∈ runs, ∃ bundle manifest,
    Pair sha256 run.input bundle manifest ∧ node = .directory bundle
  manifest : ∀ node, root .finalManifest = some node → ∃ run ∈ runs, ∃ bundle manifest,
    Pair sha256 run.input bundle manifest ∧ node = .file manifest

theorem rootAfter_concat (runs : List Run) (run : Run) :
    rootAfter sha256 (runs ++ [run]) = run.leaves sha256 (rootAfter sha256 runs) := by
  rw [rootAfter, List.foldl_append]
  rfl

theorem Whole.more {runs : List Run} {root root' : Root} (h : Whole sha256 runs root) (run : Run)
    (hbundle : root' .finalBundle = root .finalBundle ∨ root' .finalBundle = none ∨
      ∃ bundle manifest, Pair sha256 run.input bundle manifest ∧
        root' .finalBundle = some (.directory bundle))
    (hmanifest : root' .finalManifest = root .finalManifest ∨
      ∃ bundle manifest, Pair sha256 run.input bundle manifest ∧
        root' .finalManifest = some (.file manifest)) :
    Whole sha256 (runs ++ [run]) root' := by
  constructor
  · intro node hnode
    obtain hsame | hnone | ⟨bundle, manifest, hpair, hnew⟩ := hbundle
    · obtain ⟨run', hrun', hwhole⟩ := h.bundle node (hsame.symm.trans hnode)
      exact ⟨run', List.mem_append_left _ hrun', hwhole⟩
    · exact absurd (hnone.symm.trans hnode) nofun
    · obtain rfl := Option.some.inj (hnew.symm.trans hnode)
      exact ⟨run, List.mem_concat_self, bundle, manifest, hpair, rfl⟩
  · intro node hnode
    obtain hsame | ⟨bundle, manifest, hpair, hnew⟩ := hmanifest
    · obtain ⟨run', hrun', hwhole⟩ := h.manifest node (hsame.symm.trans hnode)
      exact ⟨run', List.mem_append_left _ hrun', hwhole⟩
    · obtain rfl := Option.some.inj (hnew.symm.trans hnode)
      exact ⟨run, List.mem_concat_self, bundle, manifest, hpair, rfl⟩

theorem Whole.run {runs : List Run} {root : Root} (h : Whole sha256 runs root) (run : Run) :
    Whole sha256 (runs ++ [run]) (run.leaves sha256 root) := by
  have hnew (hpublished : Published sha256 run.input (run.leaves sha256 root)) :
      Whole sha256 (runs ++ [run]) (run.leaves sha256 root) := by
    obtain ⟨bundle, manifest, hpair, hfinal, hsidecar⟩ := hpublished
    exact h.more run (.inr (.inr ⟨bundle, manifest, hpair, hfinal⟩))
      (.inr ⟨bundle, manifest, hpair, hsidecar⟩)
  obtain hok | ⟨stop, herror⟩ := @Run.cases sha256 run root
  · exact hnew (run.published root hok)
  · cases run.stopped root herror with
    | unchanged hfinal hsidecar => exact h.more run (.inl hfinal) (.inl hsidecar)
    | between _ _ hsidecar hfinal => exact h.more run (.inr hfinal) (.inl hsidecar)
    | published hpublished => exact hnew hpublished

theorem whole_rootAfter (runs : List Run) : Whole sha256 runs (rootAfter sha256 runs) := by
  induction runs using List.reverseRecOn with
  | nil => exact ⟨fun _ => nofun, fun _ => nofun⟩
  | append_singleton runs run ih =>
    rw [rootAfter_concat]
    exact ih.run run

/-- The sidecar parses to the entries of this content. -/
def Describes (sha256 : Bytes → Bytes) (parse : Bytes → Option Sidecar) (manifest : Bytes)
    (bundle : Dir) : Prop :=
  ∃ sidecar entries, parse manifest = some sidecar ∧
    computeFingerprint sha256 (.directory bundle) = some entries ∧ sidecar.hasEntries entries = true

/-- What holds after a sequence of runs and over one more. -/
structure CrashConsistent (sha256 : Bytes → Bytes) (parse : Bytes → Option Sidecar)
    (runs : List Run) : Prop where
  accepted : verifyCandidate sha256 parse (rootAfter sha256 runs) = true →
    ∃ bundle manifest, rootAfter sha256 runs .finalBundle = some (.directory bundle) ∧
      rootAfter sha256 runs .finalManifest = some (.file manifest) ∧
      (∃ run ∈ runs, run.input.bundle = some (.directory bundle)) ∧
      (∃ run ∈ runs, run.input.manifest = some manifest) ∧ Describes sha256 parse manifest bundle
  completed : ∀ run : Run, (run.outcome sha256 (rootAfter sha256 runs)).1 = .ok () →
    Published sha256 run.input (rootAfter sha256 (runs ++ [run]))
  stopped :
    ∀ (run : Run) (stop : Stop), (run.outcome sha256 (rootAfter sha256 runs)).1 = .error stop →
    Leaves sha256 run.input (rootAfter sha256 runs) stop (rootAfter sha256 (runs ++ [run]))
  kept : ∀ (run : Run) (node : Node), rootAfter sha256 runs .finalBundle = some node →
    Published sha256 run.input (rootAfter sha256 (runs ++ [run])) ∨
      rootAfter sha256 (runs ++ [run]) .finalBundle = some node ∨
      rootAfter sha256 (runs ++ [run]) .oldBundle = some node

theorem Leaves.kept {input : Input} {before root : Root} {stop : Stop} {node : Node}
    (h : Leaves sha256 input before stop root) (hnode : before .finalBundle = some node) :
    Published sha256 input root ∨ root .finalBundle = some node ∨ root .oldBundle = some node := by
  cases h with
  | unchanged hfinal _ => exact .inr (.inl (hfinal.trans hnode))
  | between _ hold _ _ => exact .inr (.inr (hold.trans hnode))
  | published hpublished => exact .inl hpublished

theorem describes_of_accepted {parse : Bytes → Option Sidecar} {root : Root} {bundle : Dir}
    {manifest : Bytes} (h : verifyCandidate sha256 parse root = true)
    (hbundle : root .finalBundle = some (.directory bundle))
    (hmanifest : root .finalManifest = some (.file manifest)) :
    Describes sha256 parse manifest bundle := by
  unfold verifyCandidate at h
  rw [hbundle, hmanifest] at h
  dsimp only at h
  split at h
  · next sidecar entries hsidecar hentries =>
    obtain ⟨h, -⟩ := Bool.and_eq_true_iff.mp h
    obtain ⟨h, -⟩ := Bool.and_eq_true_iff.mp h
    exact ⟨sidecar, entries, hsidecar, hentries, h⟩
  · cases h

/-- Publishing is crash-consistent up to a stop between its renames, which leaves
the bundle it found aside. -/
theorem crash_consistent (sha256 : Bytes → Bytes) (parse : Bytes → Option Sidecar)
    (runs : List Run) :
    CrashConsistent sha256 parse runs := by
  refine ⟨fun haccept => ?_, fun run hok => ?_, fun run stop herror => ?_, fun run node hnode => ?_⟩
  · have hwhole := @whole_rootAfter sha256 runs
    have hthere : ∃ node text, rootAfter sha256 runs .finalBundle = some node ∧
        rootAfter sha256 runs .finalManifest = some (.file text) := by
      unfold verifyCandidate at haccept
      split at haccept
      · next node text hnode htext => exact ⟨node, text, hnode, htext⟩
      · cases haccept
    obtain ⟨node, manifest, hnode, hmanifest⟩ := hthere
    obtain ⟨run, hrun, bundle, _, hpair, rfl⟩ := hwhole.bundle node hnode
    obtain ⟨run', hrun', _, manifest', hpair', heq⟩ := hwhole.manifest _ hmanifest
    obtain rfl := Node.file.inj heq
    exact ⟨bundle, manifest, hnode, hmanifest, ⟨run, hrun, hpair.content⟩,
      ⟨run', hrun', hpair'.sidecar⟩, describes_of_accepted haccept hnode hmanifest⟩
  · rw [rootAfter_concat]
    exact run.published _ hok
  · rw [rootAfter_concat]
    exact run.stopped _ herror
  · rw [rootAfter_concat]
    obtain hok | ⟨stop, herror⟩ := @Run.cases sha256 run (rootAfter sha256 runs)
    · exact .inl (run.published _ hok)
    · exact (run.stopped _ herror).kept hnode

/-- Goes well this many times, then fails. -/
def failAt (n : Nat) : List (Option Fault) := List.replicate n none ++ [some ⟨false, none⟩]

def plainTree : Dir :=
  .cons (ascii "Contents") (.directory <|
    .cons (ascii "Info.plist") (.file [1]) <|
    .cons (ascii "MacOS") (.directory <| .cons (ascii "AKInterface") (.file [2]) .nil) .nil) .nil

theorem plainTree_valid : plainTree.Valid := by
  simp only [plainTree, Dir.Valid, Node.Valid, Dir.names]
  decide

/-- Publishes one bundle with its manifest. -/
def plainRun (faults : List (Option Fault)) : Run where
  input :=
    { bundle := some (.directory plainTree)
      valid := by
        rintro _ ⟨⟩
        exact plainTree_valid
      manifest := manifest id anyBuild plainTree }
  faults

/-- After a complete publish, a second run fails at its second rename and leaves
no bundle; a third one cleans up the copy aside, fails to copy and leaves none
anywhere. -/
theorem failed_publish_loses_bundle :
    let first := plainRun []
    let second := plainRun (failAt 27)
    let third := plainRun (failAt 5)
    Published id first.input (rootAfter id [first]) ∧
      (second.outcome id (rootAfter id [first])).1 =
        .error (.failed "cannot publish the staged bundle") ∧
      rootAfter id [first, second] .finalBundle = none ∧
      (third.outcome id (rootAfter id [first, second])).1 =
        .error (.failed "copy to stage failed") ∧
      ∀ p bundle, rootAfter id [first, second, third] p ≠ some (.directory bundle) := by
  intro first second third
  have hfirst : (first.outcome id fun _ => none).1 = .ok () := by decide +kernel
  have hsecond : (second.outcome id (rootAfter id [first])).1 =
        .error (.failed "cannot publish the staged bundle") ∧
      (rootAfter id [first, second] .finalBundle).isNone = true := by decide +kernel
  have hempty : ∀ p ∈ [Path.finalBundle, .stageBundle, .oldBundle, .stageManifest],
      (rootAfter id [first, second, third] p).isNone = true := by decide +kernel
  refine ⟨first.published _ hfirst, hsecond.1, Option.isNone_iff_eq_none.mp hsecond.2,
    by decide +kernel, fun p bundle hbundle => ?_⟩
  by_cases hp : p = .finalManifest
  · subst hp
    obtain ⟨_, _, _, _, _, hfile⟩ := (whole_rootAfter [first, second, third]).manifest _ hbundle
    cases hfile
  · have hnone := hempty p (by cases p <;> simp_all)
    rw [hbundle] at hnone
    cases hnone

end ShinySongTools.Publish
