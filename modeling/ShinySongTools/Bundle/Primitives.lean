import ShinySongTools.Bundle.Transaction

/-!
# The primitives of a transaction

What each one does, and what it leaves where it meets its failure: that failure
is the next of the list, and the rest of the list is still to be met.
-/

namespace ShinySongTools.Bundle

open Effects

variable {w w' : World} {rest : List Fault}

namespace World

def spend (w : World) (rest : List Fault) : World := { w with faults := rest }

def set (w : World) (p : Path) (tree : Option Tree) : World :=
  { w with
    fs := w.fs.put p tree
    formal := if p = .bundle then w.formal ++ [tree] else w.formal }

end World

/-- A program started in `w` meets `fault`, throws `e` and leaves `rest`. -/
structure Met (w : World) (fault : Fault) (rest : List Fault) (e : Exn) : Prop where
  faults : w.faults = fault :: rest
  exn : e ≠ .idempotent

theorem meets_ends {p : Fault → Option β} :
    Ends (meets p) w
      (fun r w' => (r = none ∧ w = w') ∨ ∃ fault x rest, w.faults = fault :: rest ∧
        p fault = some x ∧ r = some x ∧ w' = w.spend rest) thrown := by
  refine Ends.get_bind ?_
  cases hfaults : w.faults with
  | nil => exact Ends.pure (.inl ⟨rfl, rfl⟩)
  | cons fault rest =>
    cases hp : p fault with
    | none =>
      simp only [hp]
      exact Ends.pure (.inl ⟨rfl, rfl⟩)
    | some x =>
      simp only [hp]
      exact Ends.set_bind (Ends.pure (.inr ⟨fault, x, rest, rfl, hp, rfl, rfl⟩))

theorem meets_one_ends {f : Fault} :
    Ends (meets fun fault => if fault = f then some () else none) w
      (fun r w' => (r = none ∧ w = w') ∨
        ∃ rest, r = some () ∧ w.faults = f :: rest ∧ w' = w.spend rest) thrown := by
  refine meets_ends.mono ?_ fun _ _ => id
  rintro r w' (hnone | ⟨fault, x, rest, hfaults, hp, rfl, rfl⟩)
  · exact .inl hnone
  · split at hp
    case isTrue heq => exact .inr ⟨rest, rfl, heq ▸ hfaults, rfl⟩
    case isFalse => cases hp

theorem fs_bind {f : Sandbox → M β} (h : Ends (f w.fs) w post thrown) :
    Ends (fs >>= f) w post thrown := h

theorem check_ends {c : Check} :
    Ends (check c) w (fun _ w' => w = w')
      fun e w' => ∃ rest, Met w (.throws c) rest e ∧ w' = w.spend rest := by
  refine meets_one_ends.bind ?_
  rintro _ _ (⟨rfl, rfl⟩ | ⟨rest, rfl, hfaults, rfl⟩)
  · exact Ends.when nofun fun _ => rfl
  · refine Ends.when (fun _ => Ends.throw ⟨rest, ⟨hfaults, nofun⟩, rfl⟩) fun hne => absurd rfl hne

theorem codesignOk_ends {c : Check} :
    Ends (codesignOk c) w
      (fun r w' => (r = true ∧ w = w') ∨
        ∃ rest, r = false ∧ w.faults = .unsigned c :: rest ∧ w' = w.spend rest)
      fun e w' => ∃ rest, Met w (.throws c) rest e ∧ w' = w.spend rest := by
  refine check_ends.bind ?_
  rintro _ _ rfl
  refine meets_one_ends.bind ?_
  rintro _ _ (⟨rfl, rfl⟩ | ⟨rest, rfl, hfaults, rfl⟩)
  · exact Ends.pure (.inl ⟨rfl, rfl⟩)
  · exact Ends.pure (.inr ⟨rest, rfl, hfaults, rfl⟩)

-- ---------------------------------------------------------------------------
-- Trees
-- ---------------------------------------------------------------------------

theorem setTree_bind {p : Path} {tree : Option Tree} {f : Unit → M β}
    (h : Ends (f ()) (w.set p tree) post thrown) : Ends (setTree p tree >>= f) w post thrown := h

theorem copyTree_ends {src dst : Path} (hsrc : w.fs.tree src = some tree)
    (hdst : w.fs.tree dst = none) :
    Ends (copyTree src dst) w (fun _ w' => w' = w.set dst (some tree))
      fun e w' => ∃ left rest, Met w (.copy dst left) rest e ∧
        w' = (w.spend rest).set dst left := by
  refine meets_ends.bind ?_
  rintro _ _ (⟨rfl, rfl⟩ | ⟨fault, left, rest, hfaults, hp, rfl, rfl⟩)
  · refine fs_bind ?_
    simp only [hsrc]
    refine fs_bind ?_
    rw [hdst]
    have hoverlay : overlay tree [] = tree := List.append_nil tree
    rw [Option.getD_none, hoverlay]
    rfl
  · split at hp
    case h_1 =>
      split at hp
      case isTrue heq =>
        cases hp
        subst heq
        exact setTree_bind (Ends.throw ⟨left, rest, ⟨hfaults, nofun⟩, rfl⟩)
      case isFalse => cases hp
    case h_2 => cases hp

theorem atomicMove_ends {src dst : Path} (hsrc : w.fs.tree src = some tree)
    (hdst : w.fs.tree dst = none) :
    Ends (atomicMove src dst) w (fun _ w' => w' = (w.set src none).set dst (some tree))
      fun e w' => ∃ rest, Met w (.move src dst) rest e ∧ w' = w.spend rest := by
  refine meets_one_ends.bind ?_
  rintro _ _ (⟨rfl, rfl⟩ | ⟨rest, rfl, hfaults, rfl⟩)
  · refine Ends.bind (R := fun _ w' => w = w') (Ends.when nofun fun _ => rfl) ?_
    rintro _ _ rfl
    refine fs_bind (fs_bind ?_)
    simp only [hsrc, hdst]
    rfl
  · refine Ends.bind (R := fun _ _ => False) ?_ fun _ _ => False.elim
    exact Ends.when (fun _ => Ends.throw ⟨rest, ⟨hfaults, nofun⟩, rfl⟩) fun hne => hne rfl

theorem deleteTree_absent {p : Path} (hp : w.fs.tree p = none) :
    Ends (deleteTree p) w (fun _ w' => w = w') thrown := by
  refine fs_bind (Ends.when (fun hsome => ?_) fun _ => rfl)
  rw [hp] at hsome
  cases hsome

theorem deleteTree_present {p : Path} (hp : w.fs.tree p = some tree) :
    Ends (deleteTree p) w (fun _ w' => w' = w.set p none)
      fun e w' => ∃ left rest, Met w (.delete p left) rest e ∧
        w' = (w.spend rest).set p (some left) := by
  refine fs_bind (Ends.when (fun _ => ?_) fun hnone => ?_)
  · refine meets_ends.bind ?_
    rintro _ _ (⟨rfl, rfl⟩ | ⟨fault, left, rest, hfaults, hmet, rfl, rfl⟩)
    · rfl
    · split at hmet
      case h_1 =>
        split at hmet
        case isTrue heq =>
          cases hmet
          subst heq
          exact setTree_bind (Ends.throw ⟨left, rest, ⟨hfaults, nofun⟩, rfl⟩)
        case isFalse => cases hmet
      case h_2 => cases hmet
  · rw [hp] at hnone
    exact absurd rfl hnone

/-- A deletion that nothing fails, whether or not there is a tree. -/
theorem deleteTree_ends {p : Path} :
    Ends (deleteTree p) w (fun _ w' => w'.faults = w.faults ∧ w'.fs = w.fs.put p none ∧
        ∀ tree ∈ w'.formal, tree ∈ w.formal ∨ tree = none)
      fun e w' => ∃ left rest, Met w (.delete p left) rest e ∧
        w' = (w.spend rest).set p (some left) := by
  cases hp : w.fs.tree p with
  | none =>
    refine (deleteTree_absent hp).mono ?_ fun _ _ => id
    rintro _ _ rfl
    refine ⟨rfl, ?_, fun _ => .inl⟩
    cases p <;> simp only [Sandbox.put, ← hp] <;> rfl
  | some tree =>
    refine (deleteTree_present hp).mono ?_ fun _ _ => id
    rintro _ _ rfl
    refine ⟨rfl, rfl, fun t ht => ?_⟩
    unfold World.set at ht
    split at ht
    · obtain ht | ht := List.mem_append.mp ht
      · exact .inl ht
      · exact .inr (List.mem_singleton.mp ht)
    · exact .inl ht

-- ---------------------------------------------------------------------------
-- Records
-- ---------------------------------------------------------------------------

theorem spit_ends {f : File} {written torn : Sandbox → Sandbox} :
    Ends (spit f written torn) w (fun _ w' => w' = { w with fs := written w.fs })
      fun e w' => ∃ left rest, Met w (.write f left) rest e ∧ w'.faults = rest ∧
        w'.formal = w.formal ∧
        w'.fs =
          match left with
          | .untouched => w.fs
          | .torn => torn w.fs
          | .written => written w.fs := by
  refine meets_ends.bind ?_
  rintro _ _ (⟨rfl, rfl⟩ | ⟨fault, left, rest, hfaults, hmet, rfl, rfl⟩)
  · rfl
  · split at hmet
    case h_1 =>
      split at hmet
      case isTrue heq =>
        cases hmet
        subst heq
        exact ⟨left, rest, ⟨hfaults, nofun⟩, rfl, rfl, rfl⟩
      case isFalse => cases hmet
    case h_2 => cases hmet

theorem readState_ends {c : Check} (hread : w.fs.state.read = some book) :
    Ends (readState c) w (fun r w' => r = book ∧ w = w')
      fun e w' => ∃ rest, Met w (.throws c) rest e ∧ w' = w.spend rest := by
  refine check_ends.bind ?_
  rintro _ _ rfl
  refine fs_bind ?_
  simp only [hread]
  exact ⟨rfl, rfl⟩

/-- Where it throws the transaction is still open; where it does not, the
transaction is closed unless `.delete` returned false. -/
theorem finishTxn_ends {record : Record} :
    Ends (finishTxn record) w
      (fun _ w' => w'.formal = w.formal ∧
        ((∃ rest, w.faults = .unlink :: rest) ∨
          w'.faults = w.faults ∧
            w'.fs = { w.fs with current := false, history := w.fs.history ++ [record] }))
      fun e w' => (∃ left rest, Met w (.write (.history (outcomeName record.outcome)) left) rest e ∧
        w'.faults = rest) ∧ w'.formal = w.formal ∧ ∃ history, w'.fs = { w.fs with history } := by
  refine Ends.bind (spit_ends.mono (fun _ _ => id) ?_) ?_
  · rintro e w' ⟨left, rest, hmet, hfaults, hformal, hfs⟩
    refine ⟨⟨left, rest, hmet, hfaults⟩, hformal, ?_⟩
    cases left with
    | untouched => exact ⟨_, hfs⟩
    | torn => exact ⟨_, hfs⟩
    | written => exact ⟨_, hfs⟩
  · rintro _ _ rfl
    refine meets_one_ends.bind ?_
    rintro _ _ (⟨rfl, rfl⟩ | ⟨rest, rfl, hfaults, rfl⟩)
    · exact Ends.when (fun _ => ⟨rfl, .inr ⟨rfl, rfl⟩⟩) fun hne => absurd rfl hne
    · exact Ends.when nofun fun _ => ⟨rfl, .inl ⟨rest, hfaults⟩⟩

theorem rollback_none (hold : w.fs.old = none) :
    Ends rollbackToOld w (fun _ w' => w = w') thrown := by
  refine fs_bind (Ends.when (fun hsome => ?_) fun _ => rfl)
  rw [hold] at hsome
  cases hsome

/-- The old bundle is moved back over what is at the formal path, or one of the
two steps fails, which leaves `left` there. -/
theorem rollback_some (hold : w.fs.old = some tree) :
    Ends rollbackToOld w
      (fun _ w' => w'.faults = w.faults ∧ w'.fs = { w.fs with bundle := some tree, old := none } ∧
        ∀ t ∈ w'.formal, t ∈ w.formal ∨ t = none ∨ t = some tree)
      fun e w' => ∃ fault rest left, Met w fault rest e ∧
        ((fault = .move .old .bundle ∧ left = none) ∨
          ∃ cut, fault = .delete .bundle cut ∧ left = some cut) ∧
        w'.faults = rest ∧ w'.fs = { w.fs with bundle := left } ∧
        ∀ t ∈ w'.formal, t ∈ w.formal ∨ t = none ∨ t = left := by
  refine fs_bind (Ends.when (fun _ => ?_) fun hnone => ?_)
  · refine Ends.bind (deleteTree_ends.mono (fun _ _ => id) ?_) ?_
    · rintro e _ ⟨left, rest, hmet, rfl⟩
      refine ⟨_, rest, some left, hmet, .inr ⟨left, rfl, rfl⟩, rfl, rfl, fun t ht => ?_⟩
      obtain ht | ht := List.mem_append.mp ht
      · exact .inl ht
      · exact .inr (.inr (List.mem_singleton.mp ht))
    · rintro _ w₁ ⟨hfaults, hfs, hformal⟩
      have hsrc : w₁.fs.tree .old = some tree := by rw [hfs]; exact hold
      have hdst : w₁.fs.tree .bundle = none := by rw [hfs]; rfl
      refine (atomicMove_ends hsrc hdst).mono ?_ ?_
      · rintro _ _ rfl
        refine ⟨hfaults, ?_, fun t ht => ?_⟩
        · simp only [World.set, Sandbox.put, hfs]
        · obtain ht | ht := List.mem_append.mp ht
          · exact (hformal t ht).imp id .inl
          · exact .inr (.inr (List.mem_singleton.mp ht))
      · rintro e _ ⟨rest, hmet, rfl⟩
        refine ⟨_, rest, none, ⟨hfaults ▸ hmet.faults, hmet.exn⟩, .inl ⟨rfl, rfl⟩, rfl, hfs, ?_⟩
        exact fun t ht => (hformal t ht).imp id .inl
  · rw [hold] at hnone
    exact absurd rfl hnone

theorem fingerprintOf_ends {sha256 : String → String} {c : Check} {p : Path}
    (hp : w.fs.tree p = some tree) :
    Ends (fingerprintOf sha256 c p) w (fun r w' => r = computeFingerprint sha256 tree ∧ w = w')
      fun e w' => ∃ rest, Met w (.throws c) rest e ∧ w' = w.spend rest := by
  refine check_ends.bind ?_
  rintro _ _ rfl
  refine fs_bind ?_
  simp only [hp]
  exact ⟨rfl, rfl⟩

end ShinySongTools.Bundle
