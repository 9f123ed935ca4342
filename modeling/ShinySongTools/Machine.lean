/-!
# Schedules of a deterministic machine

A machine is a partial step function: an action is enabled in a state when
the step function has a successor for it. All nondeterminism (which thread
moves, what the environment answers) is in the actions, so a run is a list of
actions and every interleaving is one of these lists.

`Always` speaks about the states of a run, `Each` about its steps; the rules
below lift one step's facts to whole runs.
-/

namespace Machine

variable {σ : Type u} {α : Type v} {step : σ → α → Option σ}
variable {P Q Inv : σ → Prop} {G H : σ → α → Prop} {s s' : σ} {as : List α}

def exec (step : σ → α → Option σ) (s : σ) : List α → Option σ
  | [] => some s
  | a :: as => (step s a).bind fun s' => exec step s' as

/-- `P` holds in `s` and in every state the schedule reaches from it, up to
its first action that is not enabled. -/
def Always (step : σ → α → Option σ) (P : σ → Prop) (s : σ) : List α → Prop
  | [] => P s
  | a :: as => P s ∧ ∀ s', step s a = some s' → Always step P s' as

def Each (step : σ → α → Option σ) (G : σ → α → Prop) (s : σ) : List α → Prop
  | [] => True
  | a :: as => ∀ s', step s a = some s' → G s a ∧ Each step G s' as

theorem exec_concat (he : exec step s as = some t) (hs : step t a = some t') :
    exec step s (as ++ [a]) = some t' := by
  induction as generalizing s with
  | nil =>
    cases he
    exact Option.bind_eq_some_iff.mpr ⟨t', hs, rfl⟩
  | cons b as ih =>
    obtain ⟨u, hu, he⟩ := Option.bind_eq_some_iff.mp he
    exact Option.bind_eq_some_iff.mpr ⟨u, hu, ih he⟩

theorem Always.head (h : Always step P s as) : P s := by
  cases as with
  | nil => exact h
  | cons a as => exact h.1

theorem Always.exec (h : Always step P s as) (he : exec step s as = some s') : P s' := by
  induction as generalizing s with
  | nil => cases he; exact h
  | cons a as ih =>
    obtain ⟨t, ht, he⟩ := Option.bind_eq_some_iff.mp he
    exact ih (h.2 t ht) he

theorem Always.mono (hpq : ∀ s, P s → Q s) (h : Always step P s as) : Always step Q s as := by
  induction as generalizing s with
  | nil => exact hpq s h
  | cons a as ih => exact ⟨hpq s h.1, fun t ht => ih (h.2 t ht)⟩

/-- The invariant rule. -/
theorem Always.of_step (hstep : ∀ s a s', Inv s → step s a = some s' → Inv s') (h : Inv s) :
    Always step Inv s as := by
  induction as generalizing s with
  | nil => exact h
  | cons a as ih => exact ⟨h, fun t ht => ih (hstep s a t h ht)⟩

theorem Each.of_step (hstep : ∀ s a s', Inv s → step s a = some s' → Inv s')
    (hg : ∀ s a s', Inv s → step s a = some s' → G s a) (h : Inv s) : Each step G s as := by
  induction as generalizing s with
  | nil => trivial
  | cons a as ih => exact fun t ht => ⟨hg s a t h ht, ih (hstep s a t h ht)⟩

theorem Each.cons (hs : step s a = some s') (ha : G s a) (h : Each step G s' as) :
    Each step G s (a :: as) := by
  intro t ht
  cases hs.symm.trans ht
  exact ⟨ha, h⟩

theorem Each.rest (h : Each step G s (as ++ bs)) (he : exec step s as = some t) :
    Each step G t bs := by
  induction as generalizing s with
  | nil =>
    cases he
    exact h
  | cons a as ih =>
    obtain ⟨u, hu, he⟩ := Option.bind_eq_some_iff.mp he
    exact ih (h u hu).2 he

theorem Each.of_exec (h : Each step G s (as ++ a :: bs)) (he : exec step s as = some t)
    (hs : step t a = some t') : G t a :=
  (h.rest he t' hs).1

/-- The invariant rule for runs that keep a side condition. -/
theorem Each.always (hstep : ∀ s a s', Inv s → G s a → step s a = some s' → Inv s')
    (h : Inv s) (hg : Each step G s as) : Always step Inv s as := by
  induction as generalizing s with
  | nil => exact h
  | cons a as ih =>
    refine ⟨h, fun t ht => ?_⟩
    obtain ⟨ha, hrest⟩ := hg t ht
    exact ih (hstep s a t h ha ht) hrest

theorem Each.mono (hstep : ∀ s a s', Inv s → G s a → step s a = some s' → Inv s')
    (hgh : ∀ s a s', Inv s → G s a → step s a = some s' → H s a)
    (h : Inv s) (hg : Each step G s as) : Each step H s as := by
  induction as generalizing s with
  | nil => trivial
  | cons a as ih =>
    intro t ht
    obtain ⟨ha, hrest⟩ := hg t ht
    exact ⟨hgh s a t h ha ht, ih (hstep s a t h ha ht) hrest⟩

theorem Each.of_always (hback : ∀ s a s', P s → H s a → step s a = some s' → P s' → G s a)
    (hp : Always step P s as) (hh : Each step H s as) : Each step G s as := by
  induction as generalizing s with
  | nil => trivial
  | cons a as ih =>
    intro t ht
    obtain ⟨ha, hrest⟩ := hh t ht
    exact ⟨hback s a t hp.1 ha ht (hp.2 t ht).head, ih (hp.2 t ht) hrest⟩

/-- A side condition is exact for `P` when it keeps the invariant and every
step into a `P` state satisfies it. -/
theorem always_iff_each (hP : ∀ s, Inv s → P s)
    (hstep : ∀ s a s', Inv s → G s a → step s a = some s' → Inv s')
    (hback : ∀ s a s', Inv s → step s a = some s' → P s' → G s a)
    (h : Inv s) : Always step P s as ↔ Each step G s as := by
  refine ⟨fun hp => ?_, fun hg => (Each.always hstep h hg).mono hP⟩
  induction as generalizing s with
  | nil => trivial
  | cons a as ih =>
    intro t ht
    have ha := hback s a t h ht (hp.2 t ht).head
    exact ⟨ha, ih (hstep s a t h ha ht) (hp.2 t ht)⟩

/-- A goal that no step undoes, and that every step which is a turn brings
nearer, is reached within so many turns, whatever is done between them. -/
theorem reaches_of_turns {goal : σ → Prop} {turn : α → Bool} {left : σ → Nat}
    (hstep : ∀ s a s', Inv s → step s a = some s' → Inv s')
    (hkeep : ∀ s a s', goal s → step s a = some s' → goal s')
    (hleft : ∀ s a s', Inv s → step s a = some s' → ¬ goal s →
      left s' + (if turn a then 1 else 0) ≤ left s)
    (h : Inv s) (he : exec step s as = some t) (hturns : left s < as.countP turn) : goal t := by
  induction as generalizing s with
  | nil => cases hturns
  | cons a as ih =>
    obtain ⟨s', hs, he⟩ := Option.bind_eq_some_iff.mp he
    by_cases hgoal : goal s
    · exact (Always.of_step hkeep (hkeep s a s' hgoal hs)).exec he
    · refine ih (hstep s a s' h hs) he ?_
      have hless := hleft s a s' h hs hgoal
      rw [List.countP_cons] at hturns
      omega

end Machine
