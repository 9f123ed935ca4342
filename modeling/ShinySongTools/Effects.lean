/-!
# Programs with a state that may throw

Rules of pre- and postconditions for programs whose state survives an
exception: `Ends m s post thrown` says how `m` ends that is started in `s`. A
rule takes a program apart at its head; what a part does is said once, by a
lemma about it, and used wherever it is called.
-/

namespace Effects

variable {ε σ α β : Type} {m : ExceptT ε (StateM σ) α} {s : σ}
variable {post post' R : α → σ → Prop} {thrown thrown' C : ε → σ → Prop}

/-- What ran from `s` returns as `post` says or throws as `thrown` says. -/
def Ends (m : ExceptT ε (StateM σ) α) (s : σ) (post : α → σ → Prop)
    (thrown : ε → σ → Prop) : Prop :=
  match m.run.run s with
  | (.ok a, s') => post a s'
  | (.error e, s') => thrown e s'

/-- `when` of a program that returns nothing. -/
def when (c : Prop) [Decidable c] (m : ExceptT ε (StateM σ) Unit) : ExceptT ε (StateM σ) Unit :=
  if c then m else pure ()

theorem Ends.mono (h : Ends m s post thrown) (hpost : ∀ a s', post a s' → post' a s')
    (hthrown : ∀ e s', thrown e s' → thrown' e s') : Ends m s post' thrown' := by
  unfold Ends at h ⊢
  cases hm : m.run.run s with
  | mk r s' =>
    rw [hm] at h
    cases r with
    | ok a => exact hpost a s' h
    | error e => exact hthrown e s' h

theorem Ends.of_all (hpost : ∀ a s', post a s') (hthrown : ∀ e s', thrown e s') :
    Ends m s post thrown := by
  unfold Ends
  split
  · exact hpost _ _
  · exact hthrown _ _

theorem Ends.and (h : Ends m s post thrown) (h' : Ends m s post' thrown') :
    Ends m s (fun a s' => post a s' ∧ post' a s') fun e s' => thrown e s' ∧ thrown' e s' := by
  unfold Ends at h h' ⊢
  cases hm : m.run.run s with
  | mk r s' =>
    rw [hm] at h h'
    cases r with
    | ok a => exact ⟨h, h'⟩
    | error e => exact ⟨h, h'⟩

theorem Ends.absurd (h : Ends m s (fun _ _ => False) fun _ _ => False) : False := by
  unfold Ends at h
  split at h
  · exact h
  · exact h

theorem Ends.pure {a : α} (h : post a s) : Ends (pure a) s post thrown := h

theorem Ends.throw {e : ε} (h : thrown e s) : Ends (α := α) (throw e) s post thrown := h

theorem Ends.bind {f : α → ExceptT ε (StateM σ) β} {post : β → σ → Prop} (h : Ends m s R thrown)
    (hf : ∀ a s', R a s' → Ends (f a) s' post thrown) : Ends (m >>= f) s post thrown := by
  unfold Ends at h ⊢
  rw [ExceptT.run_bind, StateT.run_bind]
  cases hm : m.run.run s with
  | mk r s' =>
    rw [hm] at h
    cases r with
    | ok a => exact hf a s' h
    | error e => exact h

theorem Ends.map {f : α → β} {post : β → σ → Prop}
    (h : Ends m s (fun a s' => post (f a) s') thrown) :
    Ends (f <$> m) s post thrown :=
  Ends.bind h fun _ _ h => Ends.pure h

theorem Ends.get_bind {f : σ → ExceptT ε (StateM σ) β} {post : β → σ → Prop}
    (h : Ends (f s) s post thrown) : Ends (get >>= f) s post thrown := h

theorem Ends.modify {g : σ → σ} {post : Unit → σ → Prop} (h : post () (g s)) :
    Ends (m := (modify g : ExceptT ε (StateM σ) Unit)) s post thrown := h

theorem Ends.set_bind {t : σ} {f : Unit → ExceptT ε (StateM σ) β} {post : β → σ → Prop}
    (h : Ends (f ()) t post thrown) : Ends (set t >>= f) s post thrown := h

theorem Ends.tryCatch {handler : ε → ExceptT ε (StateM σ) α} (h : Ends m s post C)
    (hhandler : ∀ e s', C e s' → Ends (handler e) s' post thrown) :
    Ends (tryCatch m handler) s post thrown := by
  unfold Ends at h ⊢
  change match (StateT.run (m.run >>= fun r =>
    match r with
    | .ok a => Pure.pure (.ok a)
    | .error e => (handler e).run) s) with
    | (.ok a, s') => post a s'
    | (.error e, s') => thrown e s'
  rw [StateT.run_bind]
  cases hm : m.run.run s with
  | mk r s' =>
    rw [hm] at h
    cases r with
    | ok a => exact h
    | error e => exact hhandler e s' h

theorem Ends.when {c : Prop} [Decidable c] {m : ExceptT ε (StateM σ) Unit} {post : Unit → σ → Prop}
    (hthen : c → Ends m s post thrown) (helse : ¬ c → post () s) :
    Ends (when c m) s post thrown := by
  unfold Effects.when
  split
  · exact hthen ‹c›
  · exact Ends.pure (helse ‹¬ c›)

-- ---------------------------------------------------------------------------
-- Invariants
-- ---------------------------------------------------------------------------

variable {I : σ → Prop}

/-- However `m` ends that is started where `I` holds, `I` holds. -/
def Keeps (I : σ → Prop) (m : ExceptT ε (StateM σ) α) : Prop :=
  ∀ s, I s → Ends m s (fun _ s' => I s') fun _ s' => I s'

theorem Keeps.pure {a : α} : Keeps I (Pure.pure a : ExceptT ε (StateM σ) α) :=
  fun _ h => Ends.pure h

theorem Keeps.throw {e : ε} : Keeps I (throw e : ExceptT ε (StateM σ) α) := fun _ h => Ends.throw h

theorem Keeps.bind {f : α → ExceptT ε (StateM σ) β} (h : Keeps I m) (hf : ∀ a, Keeps I (f a)) :
    Keeps I (m >>= f) :=
  fun s hs => (h s hs).bind fun a s' hs' => hf a s' hs'

theorem Keeps.get_bind {f : σ → ExceptT ε (StateM σ) β} (h : ∀ s, Keeps I (f s)) :
    Keeps I (get >>= f) :=
  fun s hs => Ends.get_bind (h s s hs)

theorem Keeps.modify {g : σ → σ} (h : ∀ s, I s → I (g s)) :
    Keeps I (m := (modify g : ExceptT ε (StateM σ) Unit)) :=
  fun s hs => Ends.modify (h s hs)

theorem Keeps.when {c : Prop} [Decidable c] {m : ExceptT ε (StateM σ) Unit} (h : c → Keeps I m) :
    Keeps I (when c m) :=
  fun s hs => Ends.when (fun hc => h hc s hs) fun _ => hs

theorem Keeps.tryCatch {handler : ε → ExceptT ε (StateM σ) α} (h : Keeps I m)
    (hhandler : ∀ e, Keeps I (handler e)) : Keeps I (tryCatch m handler) :=
  fun s hs => (h s hs).tryCatch fun e s' hs' => hhandler e s' hs'

end Effects
