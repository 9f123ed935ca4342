import Mathlib.Data.List.Nodup
import Mathlib.Logic.Function.Basic

/-!
# Ledgers of a keyed store

A store maps a key to a value of the key's own type. Owners put entries under
free keys, and each has a ledger of the keys it put; values that are there may
be changed in place by anyone. An owner that is withdrawn takes everything of
its own with it. `Kept` is how store and ledgers agree with what the owners
have done.
-/

namespace Ledger

variable {K : Type u} {V : K → Type v} {O : Type w}

abbrev Store (V : K → Type v) := (k : K) → Option (V k)

@[ext] structure Entry (V : K → Type v) where
  key : K
  value : V key

namespace Store

def empty : Store V := fun _ => none

/-- Values are changed where they are. -/
def change (s : Store V) (f : (k : K) → V k → V k) : Store V := fun k => (s k).map (f k)

variable [DecidableEq K]

def put (s : Store V) (e : Entry V) : Store V := Function.update s e.key (some e.value)

def remove (s : Store V) (k : K) : Store V := Function.update s k none

def putAll (s : Store V) (es : List (Entry V)) : Store V := es.foldl put s

def removeAll (s : Store V) (ks : List K) : Store V := ks.foldl remove s

theorem removeAll_apply (s : Store V) (ks : List K) (k : K) :
    s.removeAll ks k = if k ∈ ks then none else s k := by
  induction ks generalizing s with
  | nil => simp [removeAll]
  | cons k' ks ih =>
    rw [removeAll, List.foldl_cons, ← removeAll, ih]
    by_cases hk : k = k'
    · subst hk
      simp [remove]
    · simp [remove, hk]

end Store

-- ---------------------------------------------------------------------------
-- Deeds
-- ---------------------------------------------------------------------------

/-- Values are changed in place, then entries are put. -/
@[ext] structure Act (V : K → Type v) where
  changes : (k : K) → V k → V k
  puts : List (Entry V)

/-- What an owner does in one go. -/
structure Deed (O : Type w) (V : K → Type v) extends Act V where
  owner : O

def Act.by (a : Act V) (o : O) : Deed O V := ⟨a, o⟩

/-- What a value has become after these deeds. -/
def evolve (deeds : List (Deed O V)) (k : K) (v : V k) : V k :=
  deeds.foldl (fun v d => d.changes k v) v

/-- A standing owner has put a value there, and it has become `v`. -/
def Shows (standing : O → Prop) (deeds : List (Deed O V)) (k : K) (v : V k) : Prop :=
  ∃ pre d post v₀, deeds = pre ++ d :: post ∧ standing d.owner ∧ ⟨k, v₀⟩ ∈ d.puts ∧
    v = evolve post k v₀

def keysOf [DecidableEq O] (o : O) (deeds : List (Deed O V)) : List K :=
  (deeds.filter (·.owner = o)).flatMap fun d => d.puts.map Entry.key

section

variable {standing : O → Prop} {deeds : List (Deed O V)} {k : K} {v : V k}

theorem shows_concat (d : Deed O V) :
    Shows standing (deeds ++ [d]) k v ↔
      (∃ v', Shows standing deeds k v' ∧ v = d.changes k v') ∨
        standing d.owner ∧ ⟨k, v⟩ ∈ d.puts := by
  constructor
  · rintro ⟨pre, d', post, v₀, heq, hstanding, hput, rfl⟩
    rcases List.eq_nil_or_concat post with rfl | ⟨post, last, rfl⟩
    · obtain ⟨rfl, hlast⟩ := List.append_inj' heq rfl
      obtain rfl := List.singleton_inj.mp hlast
      exact .inr ⟨hstanding, hput⟩
    · have hfront : deeds ++ [d] = (pre ++ d' :: post) ++ [last] := by simpa using heq
      obtain ⟨rfl, hlast⟩ := List.append_inj' hfront rfl
      obtain rfl := List.singleton_inj.mp hlast
      exact .inl ⟨_, ⟨pre, d', post, v₀, rfl, hstanding, hput, rfl⟩, by simp [evolve]⟩
  · rintro (⟨v', ⟨pre, d', post, v₀, rfl, hstanding, hput, rfl⟩, rfl⟩ | ⟨hstanding, hput⟩)
    · exact ⟨pre, d', post ++ [d], v₀, by simp, hstanding, hput, by simp [evolve]⟩
    · exact ⟨deeds, d, [], v, rfl, hstanding, hput, rfl⟩

theorem Shows.mono {standing' : O → Prop} (h : Shows standing deeds k v)
    (himp : ∀ d ∈ deeds, standing d.owner → standing' d.owner) : Shows standing' deeds k v := by
  obtain ⟨pre, d, post, v₀, rfl, hstanding, hput, rfl⟩ := h
  exact ⟨pre, d, post, v₀, rfl, himp d (by simp) hstanding, hput, rfl⟩

theorem mem_keysOf [DecidableEq O] {o : O} :
    k ∈ keysOf o deeds ↔ ∃ d ∈ deeds, d.owner = o ∧ ∃ v, ⟨k, v⟩ ∈ d.puts := by
  simp only [keysOf, List.mem_flatMap, List.mem_filter, decide_eq_true_eq, List.mem_map]
  constructor
  · rintro ⟨d, ⟨hd, howner⟩, ⟨k, v⟩, hput, rfl⟩
    exact ⟨d, hd, howner, v, hput⟩
  · rintro ⟨d, hd, howner, v, hput⟩
    exact ⟨d, ⟨hd, howner⟩, ⟨k, v⟩, hput, rfl⟩

/-- Where an owner that stands has put something, something shows. -/
theorem exists_shows [DecidableEq O] {o : O} (hstanding : standing o) (hk : k ∈ keysOf o deeds) :
    ∃ v, Shows standing deeds k v := by
  obtain ⟨d, hd, rfl, v₀, hput⟩ := mem_keysOf.mp hk
  obtain ⟨pre, post, rfl⟩ := List.append_of_mem hd
  exact ⟨_, pre, d, post, v₀, rfl, hstanding, hput, rfl⟩

theorem keysOf_append [DecidableEq O] (o : O) (deeds deeds' : List (Deed O V)) :
    keysOf o (deeds ++ deeds') = keysOf o deeds ++ keysOf o deeds' := by
  simp [keysOf]

theorem keysOf_by_self [DecidableEq O] (a : Act V) (o : O) :
    keysOf o [a.by o] = a.puts.map Entry.key := by
  simp [keysOf, Act.by]

theorem keysOf_eq_nil [DecidableEq O] {o : O} (h : ∀ d ∈ deeds, d.owner ≠ o) :
    keysOf o deeds = [] := by
  have hnone : deeds.filter (·.owner = o) = [] :=
    List.filter_eq_nil_iff.mpr fun d hd => by simpa using h d hd
  rw [keysOf, hnone]
  rfl

end

-- ---------------------------------------------------------------------------
-- Entries that fit
-- ---------------------------------------------------------------------------

section

theorem change_eq_some {s : Store V} {f : (k : K) → V k → V k} {k : K} {v : V k} :
    s.change f k = some v ↔ ∃ v', s k = some v' ∧ v = f k v' := by
  simp [Store.change, eq_comm]

variable [DecidableEq K]

/-- Each entry finds its key free. -/
def Fits : Store V → List (Entry V) → Prop
  | _, [] => True
  | s, e :: rest => s e.key = none ∧ Fits (s.put e) rest

def Act.apply (s : Store V) (a : Act V) : Store V := (s.change a.changes).putAll a.puts

def Store.perform (s : Store V) (as : List (Act V)) : Store V := as.foldl Act.apply s

/-- Each act's entries find their keys free. -/
def FitsAll : Store V → List (Act V) → Prop
  | _, [] => True
  | s, a :: rest => Fits (s.change a.changes) a.puts ∧ FitsAll (a.apply s) rest

theorem fitsAll_append {s : Store V} {as as' : List (Act V)} :
    FitsAll s (as ++ as') ↔ FitsAll s as ∧ FitsAll (s.perform as) as' := by
  induction as generalizing s with
  | nil => simp [FitsAll, Store.perform]
  | cons a as ih => simp only [List.cons_append, FitsAll, ih, and_assoc, Store.perform,
      List.foldl_cons]

theorem Fits.free {s : Store V} {es : List (Entry V)} (h : Fits s es) (he : e ∈ es) :
    s e.key = none := by
  induction es generalizing s with
  | nil => cases he
  | cons first rest ih =>
    rcases List.mem_cons.mp he with rfl | hin
    · exact h.1
    · have hfree := ih h.2 hin
      by_cases hk : e.key = first.key
      · exact hk ▸ h.1
      · simpa [Store.put, hk] using hfree

theorem fits_append {s : Store V} {es es' : List (Entry V)} :
    Fits s (es ++ es') ↔ Fits s es ∧ Fits (s.putAll es) es' := by
  induction es generalizing s with
  | nil => simp [Fits, Store.putAll]
  | cons e rest ih => simp only [List.cons_append, Fits, ih, and_assoc, Store.putAll,
      List.foldl_cons]

theorem Fits.nodup {s : Store V} {es : List (Entry V)} (h : Fits s es) :
    (es.map Entry.key).Nodup := by
  induction es generalizing s with
  | nil => exact .nil
  | cons e rest ih =>
    refine List.nodup_cons.mpr ⟨fun hmem => ?_, ih h.2⟩
    obtain ⟨e', he', hk⟩ := List.mem_map.mp hmem
    have hfree := h.2.free he'
    rw [hk] at hfree
    simp [Store.put] at hfree

theorem Fits.eq_some {s : Store V} {es : List (Entry V)} (h : Fits s es) {k : K} {v : V k} :
    s.putAll es k = some v ↔ s k = some v ∨ ⟨k, v⟩ ∈ es := by
  induction es generalizing s with
  | nil => simp [Store.putAll]
  | cons e rest ih =>
    obtain ⟨key, value⟩ := e
    rw [Store.putAll, List.foldl_cons, ← Store.putAll, ih h.2, List.mem_cons, or_left_comm,
      ← or_assoc]
    by_cases hk : k = key
    · subst hk
      have hfree : s k = none := h.1
      simp [Store.put, hfree, eq_comm, or_comm]
    · simp [Store.put, hk]

end

-- ---------------------------------------------------------------------------
-- Kept ledgers
-- ---------------------------------------------------------------------------

variable [DecidableEq O]

/-- The store has what the deeds of the standing owners say, and a standing
owner's ledger has what it put, newest first; any other is empty. -/
structure Kept (s : Store V) (ledger : O → List K) (standing : O → Prop)
    (deeds : List (Deed O V)) : Prop where
  values : ∀ k v, s k = some v ↔ Shows standing deeds k v
  written : ∀ o, standing o → ledger o = (keysOf o deeds).reverse
  withdrawn : ∀ o, ¬ standing o → ledger o = []
  nodup : ∀ o, (ledger o).Nodup
  apart : ∀ o o' k, k ∈ ledger o → k ∈ ledger o' → o = o'

namespace Kept

variable {s : Store V} {ledger : O → List K} {standing : O → Prop} {deeds : List (Deed O V)}

theorem stands (h : Kept s ledger standing deeds) (hk : k ∈ ledger o) : standing o := by
  by_contra hgone
  rw [h.withdrawn o hgone] at hk
  cases hk

/-- Something is there exactly where a ledger says so. -/
theorem isSome_iff (h : Kept s ledger standing deeds) (k : K) :
    (s k).isSome ↔ ∃ o, k ∈ ledger o := by
  rw [Option.isSome_iff_exists]
  constructor
  · rintro ⟨v, hv⟩
    obtain ⟨pre, d, post, v₀, rfl, hstanding, hput, -⟩ := (h.values k v).mp hv
    refine ⟨d.owner, ?_⟩
    rw [h.written _ hstanding, List.mem_reverse]
    exact mem_keysOf.mpr ⟨d, by simp, rfl, v₀, hput⟩
  · rintro ⟨o, hk⟩
    have hstanding := h.stands hk
    rw [h.written o hstanding, List.mem_reverse] at hk
    obtain ⟨v, hshows⟩ := exists_shows hstanding hk
    exact ⟨v, (h.values k v).mpr hshows⟩

theorem empty (standing : O → Prop) :
    Kept (Store.empty : Store V) (fun _ => []) standing [] where
  values k v := by simp [Store.empty, Shows]
  written _ _ := rfl
  withdrawn _ _ := rfl
  nodup _ := .nil
  apart _ _ _ hk := by cases hk

/-- An owner that has done nothing yet may stand or not. -/
theorem enrol (h : Kept s ledger standing deeds) {standing' : O → Prop} {o : O}
    (hother : ∀ o', o' ≠ o → (standing' o' ↔ standing o')) (hempty : ledger o = [])
    (hnew : ∀ d ∈ deeds, d.owner ≠ o) : Kept s ledger standing' deeds where
  values k v := by
    rw [h.values]
    exact ⟨fun hs => hs.mono fun d hd => (hother d.owner (hnew d hd)).mpr,
      fun hs => hs.mono fun d hd => (hother d.owner (hnew d hd)).mp⟩
  written o' ho' := by
    by_cases heq : o' = o
    · rw [heq, hempty, keysOf_eq_nil hnew, List.reverse_nil]
    · exact h.written o' ((hother o' heq).mp ho')
  withdrawn o' ho' := by
    by_cases heq : o' = o
    · rw [heq, hempty]
    · exact h.withdrawn o' (mt (hother o' heq).mpr ho')
  nodup := h.nodup
  apart := h.apart

variable [DecidableEq K]

/-- A standing owner does something. -/
theorem act (h : Kept s ledger standing deeds) (a : Act V) (hstanding : standing o)
    (hfits : Fits (s.change a.changes) a.puts) :
    Kept (a.apply s)
      (Function.update ledger o ((a.puts.map Entry.key).reverse ++ ledger o))
      standing (deeds ++ [a.by o]) := by
  have hfree : ∀ k ∈ a.puts.map Entry.key, ∀ o', k ∉ ledger o' := by
    intro k hk o' hin
    obtain ⟨e, he, rfl⟩ := List.mem_map.mp hk
    have hsome := (h.isSome_iff e.key).mpr ⟨o', hin⟩
    have hnone := hfits.free he
    simp [Store.change] at hnone
    simp [hnone] at hsome
  refine ⟨fun k v => ?_, fun o' ho => ?_, fun o' ho => ?_, fun o' => ?_, fun o₁ o₂ k hk hk' => ?_⟩
  · rw [Act.apply, hfits.eq_some, change_eq_some, shows_concat]
    simp only [h.values, Act.by, hstanding, true_and]
  · rw [keysOf_append, List.reverse_append]
    by_cases heq : o' = o
    · subst heq
      rw [Function.update_self, keysOf_by_self, ← h.written _ ho]
    · have hnone : keysOf o' [a.by o] = [] := keysOf_eq_nil fun d hd => by
        rw [List.mem_singleton.mp hd]
        exact Ne.symm heq
      rw [Function.update_of_ne heq, hnone, h.written o' ho]
      rfl
  · have hne : o' ≠ o := fun heq => ho (heq ▸ hstanding)
    rw [Function.update_of_ne hne, h.withdrawn o' ho]
  · by_cases heq : o' = o
    · subst heq
      rw [Function.update_self]
      refine List.Nodup.append (List.nodup_reverse.mpr hfits.nodup) (h.nodup _) fun k hk hin => ?_
      exact hfree k (List.mem_reverse.mp hk) _ hin
    · rw [Function.update_of_ne heq]
      exact h.nodup o'
  · by_cases heq : o₁ = o <;> by_cases heq' : o₂ = o
    · rw [heq, heq']
    · subst heq
      rw [Function.update_of_ne heq'] at hk'
      rw [Function.update_self, List.mem_append, List.mem_reverse] at hk
      exact hk.elim (fun hk => absurd hk' (hfree k hk o₂)) fun hk => h.apart _ _ k hk hk'
    · subst heq'
      rw [Function.update_of_ne heq] at hk
      rw [Function.update_self, List.mem_append, List.mem_reverse] at hk'
      exact hk'.elim (fun hk' => absurd hk (hfree k hk' o₁)) fun hk' => h.apart _ _ k hk hk'
    · rw [Function.update_of_ne heq] at hk
      rw [Function.update_of_ne heq'] at hk'
      exact h.apart o₁ o₂ k hk hk'

theorem acts {as : List (Act V)} (h : Kept s ledger standing deeds) (hstanding : standing o)
    (hfits : FitsAll s as) :
    Kept (s.perform as)
      (Function.update ledger o ((as.flatMap fun a => a.puts.map Entry.key).reverse ++ ledger o))
      standing (deeds ++ as.map (Act.by · o)) := by
  induction as generalizing s ledger deeds with
  | nil => simpa [Store.perform] using h
  | cons a as ih =>
    have hnext := ih (h.act a hstanding hfits.1) hfits.2
    rw [Function.update_idem, Function.update_self] at hnext
    simpa [Store.perform] using hnext

/-- A withdrawn owner takes what is in its ledger with it, and nothing else. -/
theorem withdraw (h : Kept s ledger standing deeds) (o : O) :
    Kept (s.removeAll (ledger o)) (Function.update ledger o []) (fun o' => o' ≠ o ∧ standing o')
      deeds where
  values k v := by
    rw [Store.removeAll_apply]
    constructor
    · intro hv
      split at hv
      · cases hv
      · next hout =>
        obtain ⟨pre, d, post, v₀, rfl, hstanding, hput, rfl⟩ := (h.values k v).mp hv
        refine ⟨pre, d, post, v₀, rfl, ⟨?_, hstanding⟩, hput, rfl⟩
        rintro rfl
        apply hout
        rw [h.written _ hstanding, List.mem_reverse]
        exact mem_keysOf.mpr ⟨d, by simp, rfl, v₀, hput⟩
    · rintro ⟨pre, d, post, v₀, rfl, ⟨hne, hstanding⟩, hput, rfl⟩
      have hin : k ∈ ledger d.owner := by
        rw [h.written _ hstanding, List.mem_reverse]
        exact mem_keysOf.mpr ⟨d, by simp, rfl, v₀, hput⟩
      rw [if_neg fun hk => hne (h.apart _ _ k hin hk)]
      exact (h.values k _).mpr ⟨pre, d, post, v₀, rfl, hstanding, hput, rfl⟩
  written o' ho' := by
    rw [Function.update_of_ne ho'.1]
    exact h.written o' ho'.2
  withdrawn o' ho' := by
    by_cases heq : o' = o
    · rw [heq, Function.update_self]
    · rw [Function.update_of_ne heq]
      exact h.withdrawn o' fun hstanding => ho' ⟨heq, hstanding⟩
  nodup o' := by
    by_cases heq : o' = o
    · rw [heq, Function.update_self]
      exact .nil
    · rw [Function.update_of_ne heq]
      exact h.nodup o'
  apart o₁ o₂ k hk hk' := by
    have hmem : ∀ o', k ∈ Function.update ledger o [] o' → k ∈ ledger o' := by
      intro o' hin
      by_cases heq : o' = o
      · rw [heq, Function.update_self] at hin
        cases hin
      · rwa [Function.update_of_ne heq] at hin
    exact h.apart o₁ o₂ k (hmem o₁ hk) (hmem o₂ hk')

end Kept

end Ledger
