import Mathlib.Data.List.Count
import Mathlib.Data.List.Perm.Basic

/-!
# Values in custody

A family of places, each holding a list of values. `Once` says that a value is
in exactly one place and there exactly once. `Moves` is what a step does that
takes some values out of one place and puts them into another, `Enters` what
one does that brings new values in; both speak of counts, so neither the order
within a place nor the number of places matters.
-/

namespace Custody

variable {ι : Type u} {α : Type v} [DecidableEq α]
variable {held held' held'' : ι → List α} {known known' : α → Prop} {p q r : ι} {l : List α} {a : α}

def Once (held : ι → List α) (a : α) : Prop :=
  ∃ p, (held p).count a = 1 ∧ ∀ q, q ≠ p → (held q).count a = 0

def Absent (held : ι → List α) (a : α) : Prop := ∀ p, (held p).count a = 0

structure Moves (held held' : ι → List α) (p q : ι) (l : List α) : Prop where
  ne : p ≠ q
  taken : ∀ a, (held p).count a = (held' p).count a + l.count a
  put : ∀ a, (held' q).count a = (held q).count a + l.count a
  rest : ∀ r, r ≠ p → r ≠ q → ∀ a, (held' r).count a = (held r).count a

structure Enters (held held' : ι → List α) (q : ι) (l : List α) : Prop where
  put : ∀ a, (held' q).count a = (held q).count a + l.count a
  rest : ∀ r, r ≠ q → ∀ a, (held' r).count a = (held r).count a

/-- Values that are taken out of a place and not yet put anywhere. -/
structure Leaves (held held' : ι → List α) (p : ι) (l : List α) : Prop where
  taken : ∀ a, (held p).count a = (held' p).count a + l.count a
  rest : ∀ r, r ≠ p → ∀ a, (held' r).count a = (held r).count a

theorem Leaves.of_perm (hp : (held p).Perm (l ++ held' p)) (hrest : ∀ r, r ≠ p → held' r = held r) :
    Leaves held held' p l where
  taken a := by rw [hp.count_eq, List.count_append, Nat.add_comm]
  rest r h a := by rw [hrest r h]

theorem Leaves.enters (hl : Leaves held held' p l) (he : Enters held' held'' q l) (ne : p ≠ q) :
    Moves held held'' p q l where
  ne := ne
  taken a := by rw [hl.taken a, he.rest p ne a]
  put a := by rw [he.put a, hl.rest q ne.symm a]
  rest r h₁ h₂ a := (he.rest r h₂ a).trans (hl.rest r h₁ a)

theorem Moves.of_perm (ne : p ≠ q) (hp : (held p).Perm (l ++ held' p))
    (hq : (held' q).Perm (l ++ held q)) (hrest : ∀ r, r ≠ p → r ≠ q → held' r = held r) :
    Moves held held' p q l where
  ne := ne
  taken a := by rw [hp.count_eq, List.count_append, Nat.add_comm]
  put a := by rw [hq.count_eq, List.count_append, Nat.add_comm]
  rest r h₁ h₂ a := by rw [hrest r h₁ h₂]

theorem Enters.of_perm (hq : (held' q).Perm (l ++ held q)) (hrest : ∀ r, r ≠ q → held' r = held r) :
    Enters held held' q l where
  put a := by rw [hq.count_eq, List.count_append, Nat.add_comm]
  rest r h a := by rw [hrest r h]

theorem Moves.mem (hm : Moves held held' p q l) (ha : a ∈ held' r) :
    a ∈ held r ∨ r = q ∧ a ∈ l := by
  rw [← List.count_pos_iff] at ha
  have htaken := hm.taken a
  have hput := hm.put a
  by_cases hrq : r = q
  · subst hrq
    by_cases hl : a ∈ l
    · exact .inr ⟨rfl, hl⟩
    · rw [List.count_eq_zero.mpr hl] at hput
      exact .inl (List.count_pos_iff.mp (by omega))
  · left
    rw [← List.count_pos_iff]
    by_cases hrp : r = p
    · subst hrp
      omega
    · rwa [← hm.rest r hrp hrq a]

theorem Moves.mem_source (hm : Moves held held' p q l) (ha : a ∈ l) : a ∈ held p := by
  rw [← List.count_pos_iff] at ha ⊢
  have htaken := hm.taken a
  omega

theorem Once.of_mem (h : Once held a) (hp : a ∈ held p) :
    (held p).count a = 1 ∧ ∀ q, q ≠ p → (held q).count a = 0 := by
  obtain ⟨r, hr, hrest⟩ := h
  have hpr : p = r := by
    by_contra hne
    exact List.count_eq_zero.mp (hrest p hne) hp
  subst hpr
  exact ⟨hr, hrest⟩

theorem Once.not_mem (h : Once held a) (hp : a ∈ held p) (hq : q ≠ p) : a ∉ held q :=
  List.count_eq_zero.mp ((h.of_mem hp).2 q hq)

theorem Once.congr (h : Once held a) (heq : ∀ p, (held' p).count a = (held p).count a) :
    Once held' a := by
  obtain ⟨p, hp, hrest⟩ := h
  exact ⟨p, (heq p).trans hp, fun q hq => (heq q).trans (hrest q hq)⟩

theorem Absent.congr (h : Absent held a) (heq : ∀ p, (held' p).count a = (held p).count a) :
    Absent held' a :=
  fun p => (heq p).trans (h p)

/-- Whatever is in one place stays in one place when values move. -/
theorem Once.moves (h : Once held a) (hm : Moves held held' p q l) : Once held' a := by
  obtain ⟨r, hr, hrest⟩ := h
  have htaken := hm.taken a
  have hput := hm.put a
  by_cases hl : l.count a = 0
  · refine Once.congr ⟨r, hr, hrest⟩ fun s => ?_
    by_cases hsp : s = p
    · subst hsp
      omega
    · by_cases hsq : s = q
      · subst hsq
        omega
      · exact hm.rest s hsp hsq a
  · -- the moved values held the one copy there was
    have hpr : p = r := by
      by_contra hne
      have := hrest p hne
      omega
    subst hpr
    have hq := hrest q hm.ne.symm
    refine ⟨q, by omega, fun s hs => ?_⟩
    by_cases hsp : s = p
    · subst hsp
      omega
    · exact (hm.rest s hsp hs a).trans (hrest s hsp)

theorem Absent.moves (h : Absent held a) (hm : Moves held held' p q l) : Absent held' a := by
  intro r
  have htaken := hm.taken a
  have hput := hm.put a
  have hp := h p
  have hq := h q
  by_cases hrp : r = p
  · subst hrp
    omega
  · by_cases hrq : r = q
    · subst hrq
      omega
    · exact (hm.rest r hrp hrq a).trans (h r)

theorem Absent.enters (h : Absent held a) (he : Enters held held' q l) (hl : l.count a = 1) :
    Once held' a := by
  refine ⟨q, ?_, fun r hr => (he.rest r hr a).trans (h r)⟩
  rw [he.put, h q, hl]

/-- Every known value is in one place, and no other value is anywhere. -/
structure Accounted (held : ι → List α) (known : α → Prop) : Prop where
  once : ∀ a, known a → Once held a
  absent : ∀ a, ¬ known a → Absent held a

theorem Enters.other (he : Enters held held' q l) (hl : l.count a = 0) (p : ι) :
    (held' p).count a = (held p).count a := by
  by_cases hp : p = q
  · subst hp
    rw [he.put, hl, Nat.add_zero]
  · exact he.rest p hp a

theorem Accounted.known_of_mem (h : Accounted held known) (ha : a ∈ held p) : known a := by
  by_contra hn
  exact List.count_eq_zero.mp (h.absent a hn p) ha

theorem Accounted.of_mem (h : Accounted held known) (ha : a ∈ held p) : Once held a :=
  h.once a (h.known_of_mem ha)

theorem Accounted.congr (h : Accounted held known) (heq : ∀ p, held' p = held p) :
    Accounted held' known where
  once a ha := (h.once a ha).congr fun p => by rw [heq]
  absent a ha := (h.absent a ha).congr fun p => by rw [heq]

theorem Accounted.moves (h : Accounted held known) (hm : Moves held held' p q l) :
    Accounted held' known where
  once a ha := (h.once a ha).moves hm
  absent a ha := (h.absent a ha).moves hm

theorem Accounted.enters (h : Accounted held known) (he : Enters held held' q [b])
    (hb : ¬ known b) (hknown : ∀ a, known' a ↔ known a ∨ a = b) : Accounted held' known' where
  once a ha := by
    by_cases hab : a = b
    · subst hab
      exact (h.absent a hb).enters he (by simp)
    · have hold := ((hknown a).mp ha).resolve_right hab
      exact (h.once a hold).congr (he.other (by simp [Ne.symm hab]))
  absent a ha := by
    have hab : a ≠ b := fun hab => ha ((hknown a).mpr (.inr hab))
    exact (h.absent a fun hold => ha ((hknown a).mpr (.inl hold))).congr
      (he.other (by simp [hab.symm]))

end Custody
