import ShinySongTools.Runtime.FrameSteps

/-!
# The life of the drivers

Every action of the worker and the threads keeps the history lawful, so that
what a lawful history says of the drivers holds of every run.
-/

namespace ShinySongTools.Scheduler

open Histories

variable {trusted : Nat → Bool} {h : List Occurrence}

-- ---------------------------------------------------------------------------
-- Every action
-- ---------------------------------------------------------------------------

/-- Only a frame that holds the App does otherwise. -/
def Occurrence.quiet : Occurrence → Prop
  | .started _ _ | .unwound _ true => False
  | _ => True

theorem Occurrence.quiet.spares {o : Occurrence} (h : o.quiet) : o.spares := by
  cases o with
  | started n driver => exact h.elim
  | unwound n holding => cases holding with
    | true => exact h.elim
    | false => trivial
  | _ => trivial

theorem occurrence_quiet {f : SchedulerFrame} {o : Occurrence}
    (ho : f.occurrence trusted s t slot contended = some o) (hnone : f.app = none) : o.quiet := by
  unfold SchedulerFrame.occurrence at ho
  cases hpc : f.pc <;> simp only [hpc, hnone, Option.some.injEq, reduceCtorEq] at ho
  case claim failed =>
    split at ho
    · cases ho
      trivial
    · cases ho
  all_goals subst ho
  all_goals trivial

theorem Kept.extend {o : Option Occurrence} (hk : Kept h app) (ho : ∀ e ∈ o, e.spares) :
    Kept (h ++ o.toList) app := by
  cases o with
  | none => simpa using hk
  | some e => exact hk.concat (ho e rfl)

theorem Pc.Holding.extend {pc : Pc} {o : Option Occurrence} (hk : pc.Holding h app)
    (ho : ∀ e ∈ o, e.spares) : pc.Holding (h ++ o.toList) app := by
  cases o with
  | none => simpa using hk
  | some e => exact hk.concat (ho e rfl)

theorem Recorded.extend {o : Option Occurrence} (hr : Recorded trusted failed h t f below)
    (hne : ∀ e ∈ o, e.seq ≠ f.seq) (hmono : failed = true → failed' = true) :
    Recorded trusted failed' (h ++ o.toList) t f below := by
  cases o with
  | none => simpa using hr.mono hmono
  | some e => exact hr.concat (hne e rfl) hmono

theorem Above.extend {o : Option Occurrence} (ha : Above failed h g f)
    (hne : ∀ e ∈ o, e.seq ≠ f.seq) (hmono : failed = true → failed' = true) :
    Above failed' (h ++ o.toList) g f := by
  cases o with
  | none => simpa using ha.mono hmono
  | some e => exact ha.concat (hne e rfl) hmono

section Turn

variable {c : Chronicle} {o : Option Occurrence}

theorem Told.top (hc : Told trusted c) (ht : c.state.threads t = ⟨slot, f :: rest⟩) :
    Recorded trusted c.state.failed c.history t f rest ∧
      Stacked (Recorded trusted c.state.failed c.history t) rest := by
  have hstacked := hc.stacked t
  rwa [ht] at hstacked

theorem Told.below (hc : Told trusted c) (ht : c.state.threads t = ⟨slot, f :: rest⟩) :
    (∀ g ∈ rest, Above c.state.failed c.history f g) ∧
      rest.Pairwise (Above c.state.failed c.history) := by
  have habove := hc.above t
  rwa [ht, List.pairwise_cons] at habove

/-- No other frame has the newest one's number. -/
theorem Told.seq_ne (hc : Told trusted c) (ht : c.state.threads t = ⟨slot, f :: rest⟩)
    (hu : u ≠ t) (hg : g ∈ (c.state.threads u).stack) : f.seq ≠ g.seq := by
  intro heq
  obtain ⟨below, hrecorded⟩ := (hc.stacked u).of_mem hg
  have hentered := hrecorded.entered
  rw [← heq] at hentered
  exact hu (entered_unique hc.lawful (hc.top ht).1.entered hentered).1

/-- Either the frame holds the App itself, or what it does spares it. -/
theorem Told.spares (hc : Told trusted c) (ht : c.state.threads t = ⟨slot, f :: rest⟩)
    (hquiet : f.app = none → ∀ e ∈ o, e.quiet) :
    Alone c.state t rest ∨ ∀ e ∈ o, e.spares := by
  cases happ : f.app with
  | some own => exact .inl (hc.owner.alone ht happ)
  | none => exact .inr fun e he => (hquiet happ e he).spares

theorem Told.turn (hc : Told trusted c) (ht : c.state.threads t = ⟨slot, f :: rest⟩)
    {s₁ : State} {slot' : AppSlot} {g : Option SchedulerFrame}
    (hshares : Shares c.state s₁) (hthreads : s₁.threads = c.state.threads)
    (hpub : s₁.published = c.state.published)
    (howner : Inv trusted (fun _ => true) (s₁.setThread t slot' (g.toList ++ rest)))
    (hseq : ∀ e ∈ o, e.seq = f.seq) (hallowed : ∀ e ∈ o, allowed trusted c.history e)
    (hquiet : f.app = none → ∀ e ∈ o, e.quiet)
    (hrecorded : ∀ f' ∈ g, Recorded trusted s₁.failed (c.history ++ o.toList) t f' rest)
    (habove : ∀ f' ∈ g, ∀ r ∈ rest, Above s₁.failed (c.history ++ o.toList) f' r)
    (hholding : ∀ f' ∈ g, ∀ app, f'.app = some app → f'.pc.Holding (c.history ++ o.toList) app)
    (hslot : ∀ app, slot'.app = some app → Kept (c.history ++ o.toList) app) :
    Told trusted ⟨s₁.setThread t slot' (g.toList ++ rest), c.history ++ o.toList⟩ := by
  obtain ⟨hr, hrest⟩ := hc.top ht
  obtain ⟨hover, hpairs⟩ := hc.below ht
  have hrestne (g : SchedulerFrame) (hg : g ∈ rest) : ∀ e ∈ o, e.seq ≠ g.seq := by
    intro e he
    rw [hseq e he]
    exact (hover g hg).1.ne'
  have hotherne (u : Nat) (hu : u ≠ t) (g : SchedulerFrame)
      (hg : g ∈ (c.state.threads u).stack) : ∀ e ∈ o, e.seq ≠ g.seq := by
    intro e he
    rw [hseq e he]
    exact hc.seq_ne ht hu hg
  have hsame : (s₁.setThread t slot' (g.toList ++ rest)).threads t =
      ⟨slot', g.toList ++ rest⟩ := by simp [State.setThread]
  have hother (u : Nat) (hu : u ≠ t) :
      (s₁.setThread t slot' (g.toList ++ rest)).threads u = c.state.threads u := by
    simp [State.setThread, hu, hthreads]
  refine ⟨howner, ?_, ?_, fun u => ?_, fun u => ?_, fun app happ => ?_, fun u app happ => ?_,
    fun u r app hr' happ => ?_, fun hunpublished => ?_⟩
  · cases o with
    | none => simpa using hc.lawful
    | some e => exact lawful_concat.mpr ⟨hc.lawful, hallowed e rfl⟩
  · intro e he
    show e.seq < s₁.frameSeq
    rw [hshares.frameSeq]
    rcases List.mem_append.mp he with hin | hnew
    · exact hc.fresh e hin
    · rw [hseq e (Option.mem_toList.mp hnew)]
      exact hc.fresh _ hr.entered
  · by_cases hu : u = t
    · subst hu
      rw [hsame]
      have hbelow := hrest.imp fun g hg below hbelow => hbelow.extend (hrestne g hg) hshares.failed
      cases g with
      | none => exact hbelow
      | some f' => exact ⟨hrecorded f' rfl, hbelow⟩
    · rw [hother u hu]
      exact (hc.stacked u).imp fun g hg below hbelow =>
        hbelow.extend (hotherne u hu g hg) hshares.failed
  · by_cases hu : u = t
    · subst hu
      rw [hsame]
      have hbelow : rest.Pairwise (Above s₁.failed (c.history ++ o.toList)) :=
        hpairs.imp_of_mem fun _ hg ha => ha.extend (hrestne _ hg) hshares.failed
      cases g with
      | none => exact hbelow
      | some f' => exact List.pairwise_cons.mpr ⟨habove f' rfl, hbelow⟩
    · rw [hother u hu]
      exact (hc.above u).imp_of_mem fun _ hg ha => ha.extend (hotherne u hu _ hg) hshares.failed
  · have hold := hshares.handoff app happ
    rcases hc.spares ht hquiet with halone | hspares
    · cases halone.handoff.symm.trans hold
    · exact (hc.handoff app hold).extend hspares
  · by_cases hu : u = t
    · subst hu
      rw [hsame] at happ
      exact hslot app happ
    · rw [hother u hu] at happ
      rcases hc.spares ht hquiet with halone | hspares
      · cases (halone.slots u).symm.trans happ
      · exact (hc.slots u app happ).extend hspares
  · by_cases hu : u = t
    · subst hu
      rw [hsame] at hr'
      rcases List.mem_append.mp hr' with hnew | hbelow
      · exact hholding r (Option.mem_toList.mp hnew) app happ
      · rcases hc.spares ht hquiet with halone | hspares
        · cases (halone.below r hbelow).symm.trans happ
        · exact (hc.frames u r app (by simp [ht, hbelow]) happ).extend hspares
    · rw [hother u hu] at hr'
      rcases hc.spares ht hquiet with halone | hspares
      · cases (halone.others u hu r hr').symm.trans happ
      · exact (hc.frames u r app hr' happ).extend hspares
  · have hbefore : c.state.published = false := hpub.symm.trans hunpublished
    have hnone : f.app = none := by
      have hheld := hc.owner.before hbefore (.stack t)
      rw [(held_thread ht).2, List.append_eq_nil_iff] at hheld
      exact Option.toList_eq_nil_iff.mp hheld.1
    obtain ⟨hlost, hstarted⟩ := hc.vacant hbefore
    refine ⟨fun n hm => ?_, fun n driver hm => ?_⟩
    · rcases List.mem_append.mp hm with hin | hnew
      · exact hlost n hin
      · exact hquiet hnone _ (Option.mem_toList.mp hnew)
    · rcases List.mem_append.mp hm with hin | hnew
      · exact hstarted n driver hin
      · exact hquiet hnone _ (Option.mem_toList.mp hnew)

theorem Told.resume (hc : Told trusted c) (ht : c.state.threads t = ⟨slot, f :: rest⟩)
    (hpc : f.pc ≠ .drop) (hadv : advance trusted c.state t slot f contended = (s₁, slot', f'))
    (howner : Inv trusted (fun _ => true) (s₁.setThread t slot' (f' :: rest))) :
    Told trusted ⟨s₁.setThread t slot' (f' :: rest),
      c.history ++ (f.occurrence trusted c.state t slot contended).toList⟩ := by
  have hshares := advance_shares trusted c.state t slot f contended
  obtain ⟨hthreads, hpub⟩ := advance_frame trusted c.state t slot f contended
  obtain ⟨hholding, hslot⟩ := hc.keeps ht hpc contended
  have hrecorded := (hc.top ht).1.advance hpc slot contended
  have habove g (hg : g ∈ rest) := ((hc.below ht).1 g hg).advance trusted t slot contended
  rw [hadv] at hshares hthreads hpub hholding hslot hrecorded habove
  refine hc.turn (g := some f') ht hshares hthreads hpub howner (fun e he => occurrence_seq he)
    (fun e he => hc.allows ht he) (fun hnone e he => occurrence_quiet he hnone) ?_ ?_ ?_ hslot
  · rintro g ⟨⟩
    exact hrecorded
  · rintro g ⟨⟩
    exact habove
  · rintro g ⟨⟩
    exact hholding

theorem Told.leave (hc : Told trusted c) (ht : c.state.threads t = ⟨slot, f :: rest⟩)
    (hpc : f.pc = .drop) (event : Event)
    (howner : Inv trusted (fun _ => true)
      (((dropFrame c.state f).emit event).setThread t slot rest)) :
    Told trusted ⟨((dropFrame c.state f).emit event).setThread t slot rest,
      c.history ++ [.left f.seq]⟩ := by
  have hshares : Shares c.state ((dropFrame c.state f).emit event) ∧
      ((dropFrame c.state f).emit event).threads = c.state.threads ∧
      ((dropFrame c.state f).emit event).published = c.state.published := by
    unfold dropFrame
    split
    · exact ⟨⟨id, rfl, fun _ => id⟩, rfl, rfl⟩
    · cases f.app with
      | none => exact ⟨⟨id, rfl, fun _ => id⟩, rfl, rfl⟩
      | some app => exact ⟨⟨fun _ => rfl, rfl, fun _ => id⟩, rfl, rfl⟩
  have hslot app (happ : slot.app = some app) : Kept (c.history ++ [.left f.seq]) app :=
    (hc.slots t app (by rw [ht]; exact happ)).concat trivial
  have hoccurrence : f.occurrence trusted c.state t slot false = some (.left f.seq) := by
    simp only [SchedulerFrame.occurrence, hpc]
  refine hc.turn (g := none) (o := some (.left f.seq)) ht hshares.1 hshares.2.1 hshares.2.2 howner
    ?_ ?_ ?_ ?_ ?_ ?_ hslot
  · rintro e ⟨⟩
    rfl
  · rintro e ⟨⟩
    exact hc.allows ht hoccurrence
  · rintro - e ⟨⟩
    trivial
  · rintro g ⟨⟩
  · rintro g ⟨⟩
  · rintro g ⟨⟩

theorem Told.panics (hc : Told trusted c) (ht : c.state.threads t = ⟨slot, f :: rest⟩)
    (hpc : f.pc = .inDriver driver)
    (howner : Inv trusted (fun _ => true)
      (c.state.setThread t slot ({ f with pc := .unwound } :: rest))) :
    Told trusted ⟨c.state.setThread t slot ({ f with pc := .unwound } :: rest),
      c.history ++ [.unwound f.seq f.app.isSome]⟩ := by
  have hr := (hc.top ht).1
  have hquiet : f.app = none → ∀ e ∈ some (Occurrence.unwound f.seq f.app.isSome), e.quiet := by
    rintro hnone e ⟨⟩
    rw [hnone]
    trivial
  refine hc.turn (g := some { f with pc := .unwound })
    (o := some (.unwound f.seq f.app.isSome)) ht (Shares.refl _) rfl rfl howner ?_ ?_
      hquiet ?_ ?_ ?_
    ?_
  · rintro e ⟨⟩
    rfl
  · rintro e ⟨⟩
    trivial
  · rintro g ⟨⟩
    obtain ⟨hentered, -, -, -, -, -, hcalls, hphase, -, hsettled⟩ := hr
    constructor <;> simp_all [Occurrence.isCallOf]
  · rintro g ⟨⟩ r hr
    obtain ⟨hlt, hcalm⟩ := (hc.below ht).1 r hr
    refine ⟨hlt, fun hm hnone => ⟨(hcalm (by simpa using hm) hnone).1, fun hmay => ?_⟩⟩
    cases hmay
  · rintro g ⟨⟩ app -
    trivial
  · intro app happ
    rcases hc.spares ht hquiet with halone | hspare
    · have hvacant := halone.slots t
      rw [ht] at hvacant
      cases hvacant.symm.trans happ
    · exact (hc.slots t app (by rw [ht]; exact happ)).concat (hspare _ rfl)

/-- The frames stay, and so does the history. -/
theorem Told.shared (hc : Told trusted c) (howner : Inv trusted (fun _ => true) s')
    (hshares : c.state.failed = true → s'.failed = true)
    (hthreads : s'.threads = c.state.threads) (hseq : s'.frameSeq = c.state.frameSeq)
    (hhandoff : ∀ app, s'.handoff.app = some app → Kept c.history app)
    (hvacant : s'.published = false → c.state.published = false) :
    Told trusted ⟨s', c.history⟩ := by
  refine ⟨howner, hc.lawful, ?_, fun t => ?_, fun t => ?_, hhandoff, fun t => ?_, fun t => ?_,
    fun hunpublished => hc.vacant (hvacant hunpublished)⟩
  · simpa only [hseq] using hc.fresh
  · dsimp only
    rw [hthreads]
    exact (hc.stacked t).imp fun f _ below hr => hr.mono hshares
  · dsimp only
    rw [hthreads]
    exact (hc.above t).imp fun ha => ha.mono hshares
  · dsimp only
    rw [hthreads]
    exact hc.slots t
  · dsimp only
    rw [hthreads]
    exact hc.frames t

theorem Told.publish (hc : Told trusted c) (hp : c.state.published = false)
    (howner : Inv trusted (fun _ => true) { c.state with
      handoff := (c.state.handoff.publish ⟨false⟩).2
      published := (c.state.handoff.publish ⟨false⟩).1 }) :
    Told trusted ⟨{ c.state with
      handoff := (c.state.handoff.publish ⟨false⟩).2
      published := (c.state.handoff.publish ⟨false⟩).1 }, c.history⟩ := by
  obtain ⟨hlost, hstarted⟩ := hc.vacant hp
  refine hc.shared howner id rfl rfl (fun app happ => ?_) fun _ => hp
  unfold Handoff.publish at happ
  split at happ
  · exact hc.handoff app happ
  · split at happ
    · exact hc.handoff app happ
    · obtain rfl := Option.some.inj happ
      exact ⟨hlost, fun o => hstarted o .startup⟩

theorem callable_pc (h : callable (f :: rest) = true) :
    (∃ driver, f.pc = .inDriver driver) ∨ ∃ via, f.pc = .inOriginal via := by
  unfold callable at h
  cases hpc : f.pc with
  | inDriver driver => exact .inl ⟨driver, rfl⟩
  | inOriginal via => exact .inr ⟨via, rfl⟩
  | _ => simp [hpc] at h

/-- A frame that gave the App back did so because of a failure, or is about to
leave; game code runs above it only in the first case. -/
theorem Told.enters_above (hc : Told trusted c) (hcall : callable (c.state.threads t).stack = true)
    (hf : f ∈ (c.state.threads t).stack) (hm : .claimed f.seq ∈ c.history) (hnone : f.app = none) :
    c.state.failed = true := by
  rcases hth : c.state.threads t with ⟨slot, _ | ⟨g, rest⟩⟩
  · simp [hth] at hf
  · rw [hth] at hcall hf
    rcases List.mem_cons.mp hf with rfl | hrest
    · rcases (hc.top hth).1.settled hm hnone with hfailed | hdrop
      · exact hfailed
      · rcases callable_pc hcall with ⟨driver, hpc⟩ | ⟨via, hpc⟩
        · cases hdrop.symm.trans hpc
        · cases hdrop.symm.trans hpc
    · exact (((hc.below hth).1 f hrest).2 hm hnone).1

theorem Told.enter (hc : Told trusted c) (hcall : callable (c.state.threads t).stack = true)
    (hself : s'.threads t = ⟨(c.state.threads t).tls,
      ⟨c.state.frameSeq, this, method, none, .beforeOriginal, false, .loadFailed⟩ ::
        (c.state.threads t).stack⟩)
    (hother : ∀ u, u ≠ t → s'.threads u = c.state.threads u) (hfailed : s'.failed = c.state.failed)
    (hseq : s'.frameSeq = c.state.frameSeq + 1) (hhandoff : s'.handoff = c.state.handoff)
    (hpub : s'.published = c.state.published) (howner : Inv trusted (fun _ => true) s') :
    Told trusted ⟨s', c.history ++ [.entered c.state.frameSeq t this method
      ((c.state.threads t).stack.map (·.seq))]⟩ := by
  have hunseen (o : Occurrence) (ho : o.seq = c.state.frameSeq) : o ∉ c.history := fun hin =>
    absurd ho (hc.fresh o hin).ne
  have hframe u f (hf : f ∈ (c.state.threads u).stack) : c.state.frameSeq ≠ f.seq := by
    obtain ⟨below, hr⟩ := (hc.stacked u).of_mem hf
    exact (hc.fresh _ hr.entered).ne'
  have hmono : c.state.failed = true → s'.failed = true := by simp [hfailed]
  have hstack u : (c.state.threads u).stack.Pairwise (Above s'.failed (c.history ++
      [.entered c.state.frameSeq t this method ((c.state.threads t).stack.map (·.seq))])) :=
    (hc.above u).imp_of_mem fun _ hg ha => ha.concat (hframe u _ hg) hmono
  refine ⟨howner, lawful_concat.mpr ⟨hc.lawful, hc.fresh⟩, fun o ho => ?_, fun u => ?_, fun u => ?_,
    fun app happ => ?_, fun u app happ => ?_, fun u f app hf happ => ?_, fun hunpublished => ?_⟩
  · rw [hseq]
    rcases List.mem_append.mp ho with hin | hlast
    · exact Nat.lt_succ_of_lt (hc.fresh o hin)
    · obtain rfl := List.mem_singleton.mp hlast
      exact Nat.lt_succ_self _
  · have hold := (hc.stacked u).imp fun f hf below hr =>
      hr.concat (o := .entered c.state.frameSeq t this method
        ((c.state.threads t).stack.map (·.seq))) (hframe u f hf) hmono
    by_cases hu : u = t
    · subst hu
      rw [hself]
      refine ⟨?_, hold⟩
      have hnone : c.history.filter (·.isCallOf c.state.frameSeq) = [] :=
        List.filter_eq_nil_iff.mpr fun o ho hcall => hunseen o (o.seq_of_isCallOf hcall) ho
      have hclaimed := hunseen (.claimed c.state.frameSeq) rfl
      have hstarted driver := hunseen (.started c.state.frameSeq driver) rfl
      have hloaded := hunseen (.loaded c.state.frameSeq true) rfl
      have hchecked := hunseen (.checked c.state.frameSeq false) rfl
      constructor <;> simp_all [Occurrence.isCallOf]
    · rw [hother u hu]
      exact hold
  · by_cases hu : u = t
    · subst hu
      rw [hself]
      refine List.pairwise_cons.mpr ⟨fun f hf => ⟨?_, fun hm hnone => ⟨?_, fun _ => rfl⟩⟩, hstack u⟩
      · obtain ⟨below, hr⟩ := (hc.stacked u).of_mem hf
        exact hc.fresh _ hr.entered
      · rw [hfailed]
        exact hc.enters_above hcall hf (by simpa using hm) hnone
    · rw [hother u hu]
      exact hstack u
  · rw [hhandoff] at happ
    exact (hc.handoff app happ).concat trivial
  · have hsame : (s'.threads u).tls = (c.state.threads u).tls := by
      by_cases hu : u = t
      · rw [hu, hself]
      · rw [hother u hu]
    rw [hsame] at happ
    exact (hc.slots u app happ).concat trivial
  · by_cases hu : u = t
    · subst hu
      rw [hself] at hf
      rcases List.mem_cons.mp hf with rfl | hf
      · cases happ
      · exact (hc.frames u f app hf happ).concat trivial
    · rw [hother u hu] at hf
      exact (hc.frames u f app hf happ).concat trivial
  · obtain ⟨hlost, hstarted⟩ := hc.vacant (hpub.symm.trans hunpublished)
    exact ⟨fun n hm => hlost n (by simpa using hm),
      fun n driver hm => hstarted n driver (by simpa using hm)⟩

theorem Told.step (hc : Told trusted c) (hs : chronicle trusted c a = some c') :
    Told trusted c' := by
  obtain ⟨s', hstep, rfl⟩ := Option.map_eq_some_iff.mp hs
  have howner : Inv trusted (fun _ => true) s' := by
    refine hc.owner.step (fun _ _ => rfl) ?_ hstep
    cases a with
    | resume t contended => exact fun _ _ _ _ _ _ _ _ => rfl
    | _ => trivial
  cases a with
  | publish =>
    simp only [Scheduler.step] at hstep
    split at hstep
    · cases hstep
    · rename_i hp
      cases hstep
      simpa [occurrence] using hc.publish (by simpa using hp) howner
  | poison =>
    cases hstep
    simpa [occurrence] using hc.shared howner id rfl rfl hc.handoff id
  | fail =>
    cases hstep
    simpa [occurrence] using hc.shared howner (fun _ => rfl) rfl rfl hc.handoff id
  | runFrame t this method =>
    simp only [Scheduler.step] at hstep
    split at hstep
    · rename_i hcall
      cases hstep
      exact hc.enter hcall (by simp [State.setThread])
        (fun u hu => by simp [State.setThread, State.emit, hu]) rfl rfl rfl rfl howner
    · cases hstep
  | resume t contended =>
    rcases hth : c.state.threads t with ⟨slot, _ | ⟨f, rest⟩⟩
    · simp [Scheduler.step, hth] at hstep
    · have hocc : occurrence trusted c.state (.resume t contended) =
          f.occurrence trusted c.state t slot contended := by simp [occurrence, hth]
      simp only [Scheduler.step, hth] at hstep
      split at hstep
      · rename_i hpc
        cases hstep
        rw [hocc]
        simpa [SchedulerFrame.occurrence, hpc] using hc.leave hth hpc _ howner
      · rename_i hpc
        rcases hadv : advance trusted c.state t slot f contended with ⟨s₁, slot', f'⟩
        simp only [hadv, Option.some.injEq] at hstep
        subst hstep
        rw [hocc]
        exact hc.resume hth hpc hadv howner
  | driverPanics t =>
    rcases hth : c.state.threads t with ⟨slot, _ | ⟨f, rest⟩⟩
    · simp [Scheduler.step, hth] at hstep
    · have hocc : occurrence trusted c.state (.driverPanics t) =
          some (.unwound f.seq f.app.isSome) := by simp [occurrence, hth]
      simp only [Scheduler.step, hth] at hstep
      split at hstep
      · rename_i driver hpc
        cases hstep
        rw [hocc]
        exact hc.panics hth hpc howner
      · cases hstep

theorem Told.init : Told trusted .init where
  owner := .init
  lawful := .nil
  fresh _ h := nomatch h
  stacked _ := trivial
  above _ := .nil
  handoff _ h := nomatch h
  slots _ _ h := nomatch h
  frames _ _ _ h := nomatch h
  vacant _ := ⟨fun _ => List.not_mem_nil, fun _ _ => List.not_mem_nil⟩

end Turn

theorem driver_lifecycle (trusted : Nat → Bool) (as : List Action) :
    Machine.Always (chronicle trusted) (fun c => Lifecycle trusted c.history) .init as :=
  (Machine.Always.of_step (fun _ _ _ h hs => Told.step h hs) Told.init).mono
    fun _ hc => .of_lawful hc.lawful

end ShinySongTools.Scheduler
