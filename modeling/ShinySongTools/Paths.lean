import Mathlib.Data.List.Basic

/-!
# Where a path leads

Slash-separated paths, resolved name by name against a directory. No link is
followed, and names are compared character by character.
-/

namespace ShinySongTools.Paths

abbrev Name := List Char

/-- What stands between the slashes. -/
def components : List Char → List Name
  | [] => [[]]
  | c :: cs =>
    if c = '/' then [] :: components cs
    else
      match components cs with
      | [] => [[c]]
      | name :: names => (c :: name) :: names

def isName (name : Name) : Bool := name ≠ [] && name ≠ ['.'] && name ≠ ['.', '.']

def resolve (dir : List Name) : List Name → List Name
  | [] => dir
  | c :: cs =>
    if c = [] ∨ c = ['.'] then resolve dir cs
    else if c = ['.', '.'] then resolve dir.dropLast cs
    else resolve (dir ++ [c]) cs

def isAbsolute (path : List Char) : Bool := path.head? = some '/'

/-- The file that `dir` joined with the path is; a path that ends in no name is
no file, and one with a NUL in it is no path. -/
def fileAt (dir : List Name) (path : List Char) : Option (List Name) :=
  if '\x00' ∈ path then none
  else if (components path).getLast?.any isName then
    some (resolve (if isAbsolute path then [] else dir) (components path))
  else none

/-- Every accepted key has a file of its own, and it is inside `dir`. -/
structure Separate (dir : List Name) (accepts : κ → Prop) (target : κ → Option (List Name)) :
    Prop where
  inside : ∀ key, accepts key → ∃ below, below ≠ [] ∧ target key = some (dir ++ below)
  injective : ∀ key key', accepts key → accepts key' → target key = target key' → key = key'

/-- The key's file is inside `dir`, and no other key's. -/
def OwnFile (dir : List Name) (accepts : κ → Prop) (target : κ → Option (List Name)) (key : κ) :
    Prop :=
  ∃ below, below ≠ [] ∧ target key = some (dir ++ below) ∧
    ∀ key', accepts key' → target key' = some (dir ++ below) → key' = key

theorem Separate.ownFile {accepts : κ → Prop} {target : κ → Option (List Name)} {key : κ}
    (h : Separate dir accepts target) (hkey : accepts key) : OwnFile dir accepts target key := by
  obtain ⟨below, hne, hfile⟩ := h.inside key hkey
  exact ⟨below, hne, hfile, fun key' hkey' hfile' =>
    h.injective key' key hkey' hkey (hfile'.trans hfile.symm)⟩

-- ---------------------------------------------------------------------------
-- Paths without the directory
-- ---------------------------------------------------------------------------

/-- A relative path with its `.` and `..` cancelled. -/
structure Reduced where
  ups : Nat
  downs : List Name
  deriving DecidableEq, Repr

def reduce (r : Reduced) : List Name → Reduced
  | [] => r
  | c :: cs =>
    if c = [] ∨ c = ['.'] then reduce r cs
    else if c = ['.', '.'] then
      reduce (if r.downs = [] then ⟨r.ups + 1, []⟩ else ⟨r.ups, r.downs.dropLast⟩) cs
    else reduce ⟨r.ups, r.downs ++ [c]⟩ cs

/-- The path leads to `below` inside `dir`: it does not leave the directory, or
goes back down to it by the names it went up. -/
def Reaches (dir : List Name) (path : List Char) (below : List Name) : Prop :=
  let r := reduce ⟨0, []⟩ (components path)
  r.downs = (if isAbsolute path then dir else dir.drop (dir.length - r.ups)) ++ below

def Reduced.under (dir : List Name) (r : Reduced) : List Name :=
  dir.take (dir.length - r.ups) ++ r.downs

variable {dir : List Name} {path : List Char} {below file : List Name} {name : Name}

theorem Reduced.under_up (dir : List Name) (r : Reduced) :
    (if r.downs = [] then ⟨r.ups + 1, []⟩ else ⟨r.ups, r.downs.dropLast⟩ : Reduced).under dir =
      (r.under dir).dropLast := by
  obtain ⟨ups, downs⟩ := r
  unfold under
  by_cases hdowns : downs = []
  · rw [if_pos hdowns, hdowns, List.append_nil, List.append_nil, List.dropLast_eq_take,
      List.take_take, List.length_take, Nat.min_eq_left (Nat.sub_le _ _),
      Nat.min_eq_left (Nat.sub_le _ _), Nat.sub_sub]
  · rw [if_neg hdowns, List.dropLast_append_of_ne_nil hdowns]

theorem resolve_under (dir : List Name) (r : Reduced) (cs : List Name) :
    resolve (r.under dir) cs = (reduce r cs).under dir := by
  induction cs generalizing r with
  | nil => rfl
  | cons c cs ih =>
    rw [resolve, reduce]
    split
    · exact ih r
    · split
      · rw [← r.under_up dir]
        exact ih _
      · have hdown : r.under dir ++ [c] = Reduced.under dir ⟨r.ups, r.downs ++ [c]⟩ :=
          List.append_assoc _ _ _
        rw [hdown]
        exact ih _

theorem under_eq_iff (r : Reduced) :
    r.under dir = dir ++ below ↔ r.downs = dir.drop (dir.length - r.ups) ++ below := by
  have hdir : dir ++ below =
      dir.take (dir.length - r.ups) ++ (dir.drop (dir.length - r.ups) ++ below) := by
    rw [← List.append_assoc, List.take_append_drop]
  rw [Reduced.under, hdir, List.append_cancel_left_eq]

theorem resolve_eq_iff :
    resolve (if isAbsolute path then [] else dir) (components path) = dir ++ below ↔
      Reaches dir path below := by
  unfold Reaches
  cases isAbsolute path with
  | true =>
    have hroot : resolve [] (components path) = (reduce ⟨0, []⟩ (components path)).under [] :=
      resolve_under [] ⟨0, []⟩ (components path)
    simp only [if_true, hroot, Reduced.under, List.take_nil, List.nil_append]
  | false =>
    have hdir : Reduced.under dir ⟨0, []⟩ = dir := by simp [Reduced.under]
    have hfrom := resolve_under dir ⟨0, []⟩ (components path)
    rw [hdir] at hfrom
    simp only [Bool.false_eq_true, if_false]
    rw [hfrom]
    exact under_eq_iff _

theorem fileAt_eq_iff :
    fileAt dir path = some (dir ++ below) ↔
      '\x00' ∉ path ∧ (components path).getLast?.any isName = true ∧ Reaches dir path below := by
  unfold fileAt
  by_cases hnul : '\x00' ∈ path
  · simp [hnul]
  · by_cases hlast : (components path).getLast?.any isName = true
    · rw [if_neg hnul, if_pos hlast, Option.some.injEq, resolve_eq_iff]
      simp [hnul, hlast]
    · rw [if_neg hnul, if_neg hlast]
      simp [hlast]

-- ---------------------------------------------------------------------------
-- Paths of one name, and the last name of a path
-- ---------------------------------------------------------------------------

theorem components_ne_nil (path : List Char) : components path ≠ [] := by
  cases path with
  | nil => exact List.cons_ne_nil _ _
  | cons c cs =>
    rw [components]
    split
    · exact List.cons_ne_nil _ _
    · split <;> exact List.cons_ne_nil _ _

theorem components_name (h : '/' ∉ name) : components name = [name] := by
  induction name with
  | nil => rfl
  | cons c cs ih =>
    obtain ⟨hc, hcs⟩ := not_or.mp (List.mem_cons.not.mp h)
    rw [components, if_neg (Ne.symm hc), ih hcs]

theorem fileAt_name (hslash : '/' ∉ name) (hnul : '\x00' ∉ name) (hname : isName name = true) :
    fileAt dir name = some (dir ++ [name]) := by
  have habsolute : isAbsolute name = false := by
    cases name with
    | nil => rfl
    | cons c cs =>
      have hc : c ≠ '/' := fun hc => hslash (hc ▸ List.mem_cons_self)
      simp [isAbsolute, hc]
  obtain ⟨⟨hne, hdot⟩, hdots⟩ : (name ≠ [] ∧ name ≠ ['.']) ∧ name ≠ ['.', '.'] := by
    simpa [isName, -ne_eq] using hname
  rw [fileAt, if_neg hnul, components_name hslash, habsolute]
  simp [hname, resolve, hne, hdot, hdots]

theorem isName_of_fileAt (hslash : '/' ∉ name) (h : fileAt dir name = some file) :
    isName name = true := by
  unfold fileAt at h
  split at h
  · cases h
  · split at h
    · next hlast =>
      rw [components_name hslash] at hlast
      exact hlast
    · cases h

theorem isName_of_mem {c : Char} (h : c ∈ name) (hc : c ≠ '.') : isName name = true := by
  have hdots (dots : List Char) (hdots : c ∉ dots) : name ≠ dots := fun heq => hdots (heq ▸ h)
  simp [isName, hdots [] (by simp), hdots ['.'] (by simp [hc]), hdots ['.', '.'] (by simp [hc])]

/-- The last name of a path goes on with what is put behind the path. -/
theorem getLast?_components_append (path : List Char) (h : '/' ∉ name) :
    ∃ start, (components (path ++ name)).getLast? = some (start ++ name) := by
  induction path with
  | nil => exact ⟨[], by rw [List.nil_append, components_name h]; rfl⟩
  | cons c cs ih =>
    obtain ⟨start, ih⟩ := ih
    rw [List.cons_append, components]
    split
    · rw [List.getLast?_cons, ih]
      exact ⟨start, rfl⟩
    · cases hcs : components (cs ++ name) with
      | nil => exact absurd hcs (components_ne_nil _)
      | cons first names =>
        rw [hcs] at ih
        cases names with
        | nil =>
          obtain rfl := Option.some.inj ih
          exact ⟨c :: start, rfl⟩
        | cons second names =>
          rw [List.getLast?_cons_cons] at ih ⊢
          exact ⟨start, ih⟩

end ShinySongTools.Paths
