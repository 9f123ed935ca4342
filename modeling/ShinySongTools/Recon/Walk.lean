import ShinySongTools.Recon.MachO

/-!
# The walk stays in the header

What each turn of the walk reads, adds and returns, by the part of the header
it is about, and when all of it is right.
-/

namespace ShinySongTools.Recon

open Traced
open Publish (Bytes ascii)

namespace Image

-- ---------------------------------------------------------------------------
-- The sections
-- ---------------------------------------------------------------------------

variable {image : Image} {o s n : Nat} {found : Nat × Nat}

theorem named_text (offset : Nat) :
    ascii "__TEXT\x00" <+: image.name offset ↔ Named (image.name offset) "__TEXT" :=
  Scan.concat_prefix_iff (show 0 ∉ ascii "__TEXT" by decide +kernel)
    (by rw [name, length_bytesAt]; decide)

theorem named_code (offset : Nat) :
    ascii "__text\x00" <+: image.name offset ↔ Named (image.name offset) "__text" :=
  Scan.concat_prefix_iff (show 0 ∉ ascii "__text" by decide +kernel)
    (by rw [name, length_bytesAt]; decide)

theorem field_lt (offset size : Nat) : image.field offset size < 256 ^ size := by
  have h := littleEndian_lt (bytesAt image.mem (behind image.header offset) size)
  rwa [length_bytesAt] at h

theorem field_four_lt (offset : Nat) : image.field offset 4 < 2 ^ 32 := field_lt offset 4

theorem nsects_lt (o : Nat) : image.nsects o < 2 ^ 32 := field_four_lt (o + 64)

/-- A read behind the header. -/
theorem inside_iff (k size : Nat) (hk : k < 2 ^ 63) (hsize : 0 < size) :
    image.Inside ⟨behind image.header k, size⟩ ↔ k + size ≤ 32 + image.sizeofcmds :=
  in_iff image.mapped hsize hk image.low

/-- The sections of the segment at `o` from the one with the number `s` on. -/
def sections (image : Image) (o n s : Nat) : Reading (Option (Nat × Nat)) :=
  sectionsLoop image.mem image.header (behind image.header (o + 72)) n s

theorem behind_section (hs : s < 2 ^ 32) :
    behind (behind image.header (o + 72)) (wrap (s * 80)) = behind image.header
      (sectionAt o s) := by
  rw [wrap_of_lt (by omega), behind_behind, sectionAt, Nat.mul_comm]

theorem sections_code (hs : s < 2 ^ 32) (h : Named (image.name (sectionAt o s)) "__text") :
    image.sections o (n + 1) s =
      { reads := [⟨behind image.header (sectionAt o s), 16⟩,
          ⟨behind image.header (sectionAt o s + 32), 8⟩,
          ⟨behind image.header (sectionAt o s + 40), 8⟩]
        results := [s * 80, behind image.header (o + 72) + wrap (s * 80),
          behind image.header (sectionAt o s) + 32, behind image.header (sectionAt o s) + 40]
        value := some (image.codeAt o s) } := by
  have hname := (named_code _).mpr h
  rw [name] at hname
  rw [sections, sectionsLoop]
  apply Reading.ext <;> simp [hname, behind_section hs, behind_behind, codeAt, field]

theorem sections_other (hs : s < 2 ^ 32) (h : ¬ Named (image.name (sectionAt o s)) "__text") :
    image.sections o (n + 1) s =
      { reads := ⟨behind image.header (sectionAt o s), 16⟩ :: (image.sections o n (s + 1)).reads
        results := s * 80 :: (behind image.header (o + 72) + wrap (s * 80)) ::
          (image.sections o n (s + 1)).results
        value := (image.sections o n (s + 1)).value } := by
  have hname := (named_code _).not.mpr h
  rw [name] at hname
  rw [sections, sectionsLoop]
  apply Reading.ext <;> simp [hname, behind_section hs, sections]

/-- The first section with the code among `n` from the one with the number `s` on. -/
def codeFrom (image : Image) (o n s : Nat) : Option Nat :=
  (List.range' s n).find? fun s => decide (image.IsCode o s)

theorem codeFrom_code (h : image.IsCode o s) : image.codeFrom o (n + 1) s = some s := by
  rw [codeFrom, List.range'_succ, List.find?_cons_of_pos (by simpa using h)]

theorem codeFrom_other (h : ¬ image.IsCode o s) :
    image.codeFrom o (n + 1) s = image.codeFrom o n (s + 1) := by
  rw [codeFrom, List.range'_succ, List.find?_cons_of_neg (by simpa using h)]
  rfl

theorem firstCode_eq (o : Nat) : image.firstCode o = image.codeFrom o (image.nsects o) 0 := by
  rw [firstCode, List.range_eq_range']
  rfl

theorem codeFrom_ge {t : Nat} (h : image.codeFrom o n s = some t) : s ≤ t :=
  (List.mem_range'_1.mp (List.mem_of_find?_eq_some h)).1

variable (hs : s + n = image.nsects o)

include hs

/-- A turn of the loop: the section with the number `s` has the code, or the loop goes on. -/
theorem isCode_iff (hn : 0 < n) :
    image.IsCode o s ↔ Named (image.name (sectionAt o s)) "__text" :=
  and_iff_right (by omega)

theorem value_sections :
    (image.sections o n s).value = (image.codeFrom o n s).map (image.codeAt o) := by
  induction n generalizing s with
  | zero => rfl
  | succ n ih =>
    have hlt := image.nsects_lt o
    have hcode := isCode_iff hs n.succ_pos
    by_cases h : image.IsCode o s
    · rw [sections_code (by omega) (hcode.mp h), codeFrom_code h]
      rfl
    · rw [sections_other (by omega) (hcode.not.mp h), codeFrom_other h]
      exact ih (by omega)

theorem inside_sections (ho : o < 2 ^ 34) :
    (∀ span ∈ (image.sections o n s).reads, image.Inside span) ↔
      match image.codeFrom o n s with
      | some t => sectionAt o t + 48 ≤ 32 + image.sizeofcmds
      | none => n = 0 ∨ sectionAt o (s + n - 1) + 16 ≤ 32 + image.sizeofcmds := by
  induction n generalizing s with
  | zero => exact iff_of_true (List.forall_mem_nil _) (.inl rfl)
  | succ n ih =>
    have hlt := image.nsects_lt o
    have hcode := isCode_iff hs n.succ_pos
    have hfar : sectionAt o s + 40 < 2 ^ 63 := by unfold sectionAt; omega
    have hname := image.inside_iff (sectionAt o s) 16 (by omega) (by omega)
    have haddr := image.inside_iff (sectionAt o s + 32) 8 (by omega) (by omega)
    have hsize := image.inside_iff (sectionAt o s + 40) 8 (by omega) (by omega)
    by_cases h : image.IsCode o s
    · rw [sections_code (by omega) (hcode.mp h), codeFrom_code h]
      simp only [List.forall_mem_cons, hname, haddr, hsize]
      refine ⟨fun h => h.2.2.1, fun h => ⟨by omega, by omega, by omega, List.forall_mem_nil _⟩⟩
    · rw [sections_other (by omega) (hcode.not.mp h), codeFrom_other h, List.forall_mem_cons, hname,
        ih (by omega)]
      cases hfirst : image.codeFrom o n (s + 1) with
      | some t =>
        have hge := codeFrom_ge hfirst
        refine and_iff_right_of_imp fun ht => ?_
        simp only [sectionAt] at ht ⊢
        omega
      | none =>
        simp only [sectionAt]
        omega

theorem length_sections (ho : o < 2 ^ 34)
    (hinside : ∀ span ∈ (image.sections o n s).reads, image.Inside span)
    (hstart : sectionAt o s ≤ 32 + image.sizeofcmds + 64) :
    80 * (image.sections o n s).reads.length + sectionAt o s ≤ image.sizeofcmds + 336 := by
  induction n generalizing s with
  | zero =>
    have hnone : (image.sections o 0 s).reads.length = 0 := rfl
    omega
  | succ n ih =>
    have hlt := image.nsects_lt o
    have hcode := isCode_iff hs n.succ_pos
    have hfar : sectionAt o s + 40 < 2 ^ 63 := by unfold sectionAt; omega
    by_cases h : image.IsCode o s
    · rw [sections_code (by omega) (hcode.mp h)] at hinside ⊢
      have hsize := (image.inside_iff (sectionAt o s + 40) 8 (by omega)
        (by omega)).mp (hinside _ (by simp))
      simp only [List.length_cons, List.length_nil]
      omega
    · rw [sections_other (by omega) (hcode.not.mp h)] at hinside ⊢
      obtain ⟨hname, hrest⟩ := List.forall_mem_cons.mp hinside
      rw [image.inside_iff _ _ (by omega) (by omega)] at hname
      have hnext : sectionAt o (s + 1) = sectionAt o s + 80 := by unfold sectionAt; omega
      have hlength := ih (by omega) hrest (by omega)
      rw [List.length_cons]
      omega

theorem results_sections (hlow : image.header < 2 ^ 47) (ho : o < 2 ^ 34) :
    ∀ x ∈ (image.sections o n s).results, x < 2 ^ 64 := by
  induction n generalizing s with
  | zero => exact List.forall_mem_nil _
  | succ n ih =>
    have hlt := image.nsects_lt o
    have hcode := isCode_iff hs n.succ_pos
    have hfar : sectionAt o s + 40 < 2 ^ 62 := by unfold sectionAt; omega
    have hsection : behind image.header (sectionAt o s) < 2 ^ 63 := by
      rw [behind_of_lt (by omega)]
      omega
    have hsections : behind image.header (o + 72) + wrap (s * 80) < 2 ^ 64 := by
      rw [behind_of_lt (by omega), wrap_of_lt (by omega)]
      omega
    by_cases h : image.IsCode o s
    · rw [sections_code (by omega) (hcode.mp h)]
      simp only [List.forall_mem_cons]
      exact ⟨by omega, hsections, by omega, by omega, List.forall_mem_nil _⟩
    · rw [sections_other (by omega) (hcode.not.mp h)]
      simp only [List.forall_mem_cons]
      exact ⟨by omega, hsections, ih (by omega)⟩

omit hs

-- ---------------------------------------------------------------------------
-- A segment
-- ---------------------------------------------------------------------------

/-- What the walk does with a complete command. -/
def command (image : Image) (o : Nat) : Reading (Option (Nat × Nat)) :=
  commandText image.mem image.header (image.cmd o) o

theorem segmentText_other (h : ¬ Named (image.name (o + 8)) "__TEXT") :
    segmentText image.mem image.header o =
      { reads := [⟨behind image.header (o + 8), 16⟩]
        results := [image.header + o, behind image.header o + 8]
        value := none } := by
  have hname := (named_text _).not.mpr h
  rw [name] at hname
  rw [segmentText]
  apply Reading.ext <;> simp [hname, behind_behind]

theorem segmentText_text (h : Named (image.name (o + 8)) "__TEXT") :
    segmentText image.mem image.header o =
      { reads := ⟨behind image.header (o + 8), 16⟩ :: ⟨behind image.header (o + 64), 4⟩ ::
          (image.sections o (image.nsects o) 0).reads
        results := (image.header + o) :: (behind image.header o + 8) :: (image.header + o) ::
          (behind image.header o + 64) :: (image.header + o) :: (behind image.header o + 72) ::
          (image.sections o (image.nsects o) 0).results
        value := (image.sections o (image.nsects o) 0).value } := by
  have hname := (named_text _).mpr h
  rw [name] at hname
  rw [segmentText]
  apply Reading.ext <;> simp [hname, behind_behind, sections, nsects, field]

/-- What is returned for a command is the first code of a `__TEXT`. -/
theorem value_command (o : Nat) :
    (image.command o).value =
      if image.IsText o then (image.firstCode o).map (image.codeAt o) else none := by
  unfold command commandText
  by_cases hcmd : image.cmd o = lcSegment64
  · by_cases hname : Named (image.name (o + 8)) "__TEXT"
    · rw [if_pos hcmd, segmentText_text hname, if_pos ⟨hcmd, hname⟩, firstCode_eq,
        ← value_sections (Nat.zero_add _)]
    · rw [if_pos hcmd, segmentText_other hname, if_neg fun h => hname h.2]
  · rw [if_neg hcmd, if_neg fun h => hcmd h.1]
    rfl

theorem inside_command (ho : o < 2 ^ 34) :
    (∀ span ∈ (image.command o).reads, image.Inside span) ↔
      (image.cmd o = lcSegment64 → image.extent o ≤ 32 + image.sizeofcmds) := by
  have hsegname := image.inside_iff (o + 8) 16 (by omega) (by omega)
  have hnsects := image.inside_iff (o + 64) 4 (by omega) (by omega)
  unfold command commandText extent
  by_cases hcmd : image.cmd o = lcSegment64
  · rw [if_pos hcmd, forall_prop_of_true hcmd]
    by_cases hname : Named (image.name (o + 8)) "__TEXT"
    · rw [segmentText_text hname, if_pos hname, List.forall_mem_cons, List.forall_mem_cons,
        hsegname, hnsects, inside_sections (Nat.zero_add _) ho, firstCode_eq]
      cases image.codeFrom o (image.nsects o) 0 with
      | some t =>
        simp only [sectionAt]
        omega
      | none =>
        simp only [sectionAt]
        split <;> omega
    · rw [segmentText_other hname, if_neg hname, List.forall_mem_singleton, hsegname]
  · rw [if_neg hcmd]
    exact iff_of_true (List.forall_mem_nil _) fun h => absurd h hcmd

theorem length_command (ho : o < 2 ^ 34)
    (hinside : ∀ span ∈ (image.command o).reads, image.Inside span) :
    (image.command o).reads.length ≤ image.sizeofcmds + 6 := by
  unfold command commandText at hinside ⊢
  by_cases hcmd : image.cmd o = lcSegment64
  · rw [if_pos hcmd] at hinside ⊢
    by_cases hname : Named (image.name (o + 8)) "__TEXT"
    · rw [segmentText_text hname] at hinside ⊢
      obtain ⟨-, hnsects, hsections⟩ :=
        List.forall_mem_cons.mp hinside |>.imp_right List.forall_mem_cons.mp
      rw [image.inside_iff _ _ (by omega) (by omega)] at hnsects
      have hlength := length_sections (Nat.zero_add _) ho hsections (by unfold sectionAt; omega)
      rw [List.length_cons, List.length_cons]
      unfold sectionAt at hlength
      omega
    · rw [segmentText_other hname, List.length_singleton]
      omega
  · rw [if_neg hcmd]
    exact Nat.zero_le _

theorem results_command (hlow : image.header < 2 ^ 47) (ho : o < 2 ^ 34) :
    ∀ x ∈ (image.command o).results, x < 2 ^ 64 := by
  have hbehind : behind image.header o = image.header + o := behind_of_lt (by omega)
  unfold command commandText
  by_cases hcmd : image.cmd o = lcSegment64
  · rw [if_pos hcmd]
    by_cases hname : Named (image.name (o + 8)) "__TEXT"
    · rw [segmentText_text hname]
      simp only [List.forall_mem_cons, hbehind]
      exact ⟨by omega, by omega, by omega, by omega, by omega, by omega,
        results_sections (Nat.zero_add _) hlow ho⟩
    · rw [segmentText_other hname]
      simp only [List.forall_mem_cons, hbehind]
      exact ⟨by omega, by omega, List.forall_mem_nil _⟩
  · rw [if_neg hcmd]
    exact List.forall_mem_nil _

-- ---------------------------------------------------------------------------
-- The commands
-- ---------------------------------------------------------------------------

/-- The walk with `n` commands left, at the distance `o` from the header. -/
def walk (image : Image) (n o : Nat) : Reading (Option (Nat × Nat)) :=
  commandsLoop image.mem image.header (32 + image.sizeofcmds) n o

theorem sizeofcmds_lt (image : Image) : image.sizeofcmds < 2 ^ 32 := field_four_lt 20

/-- A command that is not complete ends the walk. -/
theorem walk_incomplete (ho : o ≤ 32 + image.sizeofcmds) (h : ¬ image.Complete o) :
    (image.walk (n + 1) o).value = none ∧
      (∀ span ∈ (image.walk (n + 1) o).reads, image.Inside span) ∧
      (image.walk (n + 1) o).reads.length ≤ 32 + image.sizeofcmds - o ∧
      (image.header < 2 ^ 47 → ∀ x ∈ (image.walk (n + 1) o).results, x < 2 ^ 64) := by
  have hsize := image.sizeofcmds_lt
  have hlt := image.field_four_lt (o + 4)
  have hcmd := image.inside_iff o 4 (by omega) (by omega)
  have hcmdsize := image.inside_iff (o + 4) 4 (by omega) (by omega)
  have hbehind (hlow : image.header < 2 ^ 47) : behind image.header o = image.header + o :=
    behind_of_lt (by omega)
  have height : behind o 8 = o + 8 := behind_of_lt (by omega)
  have hnext : behind o (image.cmdsize o) = o + image.cmdsize o :=
    behind_of_lt (by unfold cmdsize; omega)
  unfold Complete at h
  unfold walk
  rw [commandsLoop]
  unfold cmdsize field at *
  by_cases hpast : o + 8 > 32 + image.sizeofcmds
  · simp [height, hpast]
    omega
  · by_cases hzero : littleEndian (bytesAt image.mem (behind image.header (o + 4)) 4) = 0
    · simp [height, hpast, behind_behind, hzero]
      exact ⟨⟨hcmd.mpr (by omega), hcmdsize.mpr (by omega)⟩, by omega, fun hlow =>
        ⟨by omega, by omega, by rw [hbehind hlow]; omega⟩⟩
    · have hover : ¬ o + littleEndian (bytesAt image.mem (behind image.header (o + 4)) 4) ≤
          32 + image.sizeofcmds := fun hle => h ⟨by omega, hzero, hle⟩
      simp [height, hpast, behind_behind, hzero, hnext, Nat.lt_of_not_le hover]
      exact ⟨⟨hcmd.mpr (by omega), hcmdsize.mpr (by omega)⟩, by omega, fun hlow =>
        ⟨by omega, by omega, by rw [hbehind hlow]; omega, by omega⟩⟩

/-- The tests that a complete command passes. -/
theorem Complete.tests (h : image.Complete o) :
    ¬ behind o 8 > 32 + image.sizeofcmds ∧
      behind o (image.cmdsize o) = o + image.cmdsize o := by
  obtain ⟨height, -, hnext⟩ := h
  have hsize := image.sizeofcmds_lt
  rw [behind_of_lt (by omega), behind_of_lt (by omega)]
  exact ⟨by omega, rfl⟩

theorem Complete.inside (h : image.Complete o) :
    image.Inside ⟨behind image.header o, 4⟩ ∧ image.Inside ⟨behind image.header (o + 4), 4⟩ := by
  obtain ⟨height, -, -⟩ := h
  have hsize := image.sizeofcmds_lt
  rw [inside_iff _ _ (by omega) (by omega), inside_iff _ _ (by omega) (by omega)]
  omega

theorem walk_found (h : image.Complete o) (hvalue : (image.command o).value = some found) :
    image.walk (n + 1) o =
      { reads := ⟨behind image.header o, 4⟩ :: ⟨behind image.header (o + 4), 4⟩ ::
          (image.command o).reads
        results := (o + 8) :: (image.header + o) :: (image.header + o) ::
          (behind image.header o + 4) :: (o + image.cmdsize o) :: (image.command o).results
        value := some found } := by
  obtain ⟨hpast, hnext⟩ := h.tests
  obtain ⟨-, hzero, hover⟩ := h
  rw [← hnext] at hover
  unfold walk
  rw [commandsLoop]
  unfold command cmd cmdsize field at *
  apply Reading.ext <;> simp [hpast, behind_behind, hzero, Nat.not_lt.mpr hover, hvalue]

theorem walk_next (h : image.Complete o) (hvalue : (image.command o).value = none) :
    image.walk (n + 1) o =
      { reads := ⟨behind image.header o, 4⟩ :: ⟨behind image.header (o + 4), 4⟩ ::
          ((image.command o).reads ++ (image.walk n (o + image.cmdsize o)).reads)
        results := (o + 8) :: (image.header + o) :: (image.header + o) ::
          (behind image.header o + 4) :: (o + image.cmdsize o) ::
          ((image.command o).results ++
            (o + image.cmdsize o) :: (image.walk n (o + image.cmdsize o)).results)
        value := (image.walk n (o + image.cmdsize o)).value } := by
  obtain ⟨hpast, hnext⟩ := h.tests
  obtain ⟨-, hzero, hover⟩ := h
  unfold walk
  rw [commandsLoop]
  unfold command cmd cmdsize field at *
  apply Reading.ext <;> simp [hpast, behind_behind, hzero, hnext, Nat.not_lt.mpr hover, hvalue]

-- ---------------------------------------------------------------------------
-- All the commands
-- ---------------------------------------------------------------------------

theorem reached_zero : image.Reached o (n + 1) 0 ↔ image.Complete o := by
  refine ⟨fun h => h.2.1 0 (Nat.le_refl 0), fun h => ⟨n.succ_pos, fun j hj => ?_, fun j hj => ?_⟩⟩
  · rw [Nat.le_zero.mp hj]
    exact h
  · exact absurd hj (Nat.not_lt_zero j)

theorem reached_succ {i : Nat} : image.Reached o (n + 1) (i + 1) ↔
    image.Complete o ∧ ¬ image.HasCode o ∧ image.Reached (o + image.cmdsize o) n i := by
  constructor
  · rintro ⟨hi, hcomplete, hcode⟩
    exact ⟨hcomplete 0 (Nat.zero_le _), hcode 0 i.succ_pos, Nat.lt_of_succ_lt_succ hi,
      fun j hj => hcomplete (j + 1) (Nat.succ_le_succ hj),
      fun j hj => hcode (j + 1) (Nat.succ_lt_succ hj)⟩
  · rintro ⟨hcomplete, hcode, hi, hcompletes, hcodes⟩
    refine ⟨Nat.succ_lt_succ hi, fun j hj => ?_, fun j hj => ?_⟩
    · cases j with
      | zero => exact hcomplete
      | succ j => exact hcompletes j (Nat.le_of_succ_le_succ hj)
    · cases j with
      | zero => exact hcode
      | succ j => exact hcodes j (Nat.lt_of_succ_lt_succ hj)

theorem not_reached_of_incomplete {i : Nat} (h : ¬ image.Complete o) :
    ¬ image.Reached o n i := fun hreached =>
  h (hreached.2.1 0 (Nat.zero_le _))

theorem firstCode_eq_none : image.firstCode o = none ↔ ∀ s, ¬ image.IsCode o s := by
  rw [firstCode, List.find?_eq_none]
  constructor
  · intro h s hs
    exact h s (List.mem_range.mpr hs.1) (by simpa using hs)
  · intro h s _
    simpa using h s

theorem isCode_of_firstCode (h : image.firstCode o = some s) : image.IsCode o s := by
  have hs := List.find?_some h
  simpa using hs

theorem value_command_eq_none : (image.command o).value = none ↔ ¬ image.HasCode o := by
  rw [value_command]
  by_cases htext : image.IsText o
  · rw [if_pos htext, Option.map_eq_none_iff, firstCode_eq_none]
    exact ⟨fun h hcode => hcode.2.elim h, fun h s hs => h ⟨htext, s, hs⟩⟩
  · rw [if_neg htext]
    exact iff_of_true rfl fun h => htext h.1

theorem value_command_eq_some : (image.command o).value = some found ↔
    image.IsText o ∧ ∃ s, image.firstCode o = some s ∧ found = image.codeAt o s := by
  rw [value_command]
  by_cases htext : image.IsText o
  · rw [if_pos htext, Option.map_eq_some_iff, and_iff_right htext]
    exact exists_congr fun s => and_congr_right fun _ => eq_comm
  · rw [if_neg htext]
    exact iff_of_false (by simp) fun h => htext h.1

/-- Each command in turn: it ends the walk, it has what is returned, or the walk goes on. -/
theorem step (image : Image) (o : Nat) : ¬ image.Complete o ∨
    (∃ found, image.Complete o ∧ image.HasCode o ∧ (image.command o).value = some found) ∨
    (image.Complete o ∧ ¬ image.HasCode o ∧ (image.command o).value = none) := by
  by_cases hcomplete : image.Complete o
  · cases hvalue : (image.command o).value with
    | none => exact .inr (.inr ⟨hcomplete, value_command_eq_none.mp hvalue, rfl⟩)
    | some found =>
      refine .inr (.inl ⟨found, hcomplete, ?_, rfl⟩)
      by_contra hcode
      exact absurd (hvalue.symm.trans (value_command_eq_none.mpr hcode)) (by simp)
  · exact .inl hcomplete

/-- The walk returns the code of the first command that has it. -/
theorem value_walk (ho : o ≤ 32 + image.sizeofcmds) :
    (image.walk n o).value = some found ↔
      ∃ i, image.Reached o n i ∧ (image.command (image.commandFrom o i)).value = some found := by
  induction n generalizing o with
  | zero => exact iff_of_false (by simp [walk, commandsLoop]) fun ⟨i, h, _⟩ => Nat.not_lt_zero i h.1
  | succ n ih =>
    rcases image.step o with h | ⟨text, h, hcode, hvalue⟩ | ⟨h, hcode, hvalue⟩
    · rw [(walk_incomplete ho h).1]
      exact iff_of_false (by simp) fun ⟨i, hi, _⟩ => not_reached_of_incomplete h hi
    · rw [walk_found h hvalue]
      constructor
      · intro htext
        exact ⟨0, reached_zero.mpr h, hvalue.trans htext⟩
      · rintro ⟨i, hi, hfound⟩
        cases i with
        | zero => exact hvalue.symm.trans hfound
        | succ i => exact absurd hcode (reached_succ.mp hi).2.1
    · rw [walk_next h hvalue, ih h.2.2]
      constructor
      · rintro ⟨i, hi, hfound⟩
        exact ⟨i + 1, reached_succ.mpr ⟨h, hcode, hi⟩, hfound⟩
      · rintro ⟨i, hi, hfound⟩
        cases i with
        | zero => exact absurd (hvalue.symm.trans hfound) (by simp)
        | succ i => exact ⟨i, (reached_succ.mp hi).2.2, hfound⟩

/-- The reads stay inside when the part of each segment that decides about it is inside. -/
theorem inside_walk (ho : o ≤ 32 + image.sizeofcmds) :
    (∀ span ∈ (image.walk n o).reads, image.Inside span) ↔
      ∀ i, image.Reached o n i → image.cmd (image.commandFrom o i) = lcSegment64 →
        image.extent (image.commandFrom o i) ≤ 32 + image.sizeofcmds := by
  have hsize := image.sizeofcmds_lt
  induction n generalizing o with
  | zero => exact iff_of_true (List.forall_mem_nil _) fun i h => absurd h.1 (Nat.not_lt_zero i)
  | succ n ih =>
    have hcommand := image.inside_command (o := o) (by omega)
    rcases image.step o with h | ⟨text, h, hcode, hvalue⟩ | ⟨h, hcode, hvalue⟩
    · exact iff_of_true (walk_incomplete ho h).2.1 fun i hi =>
        absurd hi (not_reached_of_incomplete h)
    · obtain ⟨hcmd, hcmdsize⟩ := h.inside
      rw [walk_found h hvalue, List.forall_mem_cons, List.forall_mem_cons, and_iff_right hcmd,
        and_iff_right hcmdsize, hcommand]
      constructor
      · intro hextent i hi
        cases i with
        | zero => exact hextent
        | succ i => exact absurd hcode (reached_succ.mp hi).2.1
      · intro hextent
        exact hextent 0 (reached_zero.mpr h)
    · obtain ⟨hcmd, hcmdsize⟩ := h.inside
      rw [walk_next h hvalue, List.forall_mem_cons, List.forall_mem_cons, and_iff_right hcmd,
        and_iff_right hcmdsize, List.forall_mem_append, hcommand]
      refine (and_congr_right fun _ => ih h.2.2).trans ?_
      constructor
      · rintro ⟨hextent, hextents⟩ i hi
        cases i with
        | zero => exact hextent
        | succ i => exact hextents i (reached_succ.mp hi).2.2
      · intro hextent
        exact ⟨hextent 0 (reached_zero.mpr h),
          fun i hi => hextent (i + 1) (reached_succ.mpr ⟨h, hcode, hi⟩)⟩

theorem results_walk (hlow : image.header < 2 ^ 47) (ho : o ≤ 32 + image.sizeofcmds) :
    ∀ x ∈ (image.walk n o).results, x < 2 ^ 64 := by
  have hsize := image.sizeofcmds_lt
  induction n generalizing o with
  | zero => exact List.forall_mem_nil _
  | succ n ih =>
    have hcommand := image.results_command (o := o) hlow (by omega)
    have hbehind : behind image.header o = image.header + o := behind_of_lt (by omega)
    rcases image.step o with h | ⟨text, h, -, hvalue⟩ | ⟨h, -, hvalue⟩
    · exact (walk_incomplete ho h).2.2.2 hlow
    · have hnext := h.2.2
      rw [walk_found h hvalue]
      simp only [List.forall_mem_cons, hbehind]
      exact ⟨by omega, by omega, by omega, by omega, by omega, hcommand⟩
    · have hnext := h.2.2
      rw [walk_next h hvalue]
      simp only [List.forall_mem_cons, List.forall_mem_append, hbehind]
      exact ⟨by omega, by omega, by omega, by omega, by omega, hcommand, by omega, ih hnext⟩

/-- Each command takes a byte of the region at least, and no more reads than the region has. -/
theorem length_walk (ho : o ≤ 32 + image.sizeofcmds)
    (hinside : ∀ span ∈ (image.walk n o).reads, image.Inside span) :
    (image.walk n o).reads.length ≤ (32 + image.sizeofcmds - o) * (image.sizeofcmds + 8) := by
  have hsize := image.sizeofcmds_lt
  induction n generalizing o with
  | zero => exact Nat.zero_le _
  | succ n ih =>
    rcases image.step o with h | ⟨text, h, -, hvalue⟩ | ⟨h, -, hvalue⟩
    · refine (walk_incomplete ho h).2.2.1.trans (Nat.le_mul_of_pos_right _ (by omega))
    · obtain ⟨height, hzero, hnext⟩ := id h
      rw [walk_found h hvalue] at hinside ⊢
      obtain ⟨-, -, hcommand⟩ :=
        List.forall_mem_cons.mp hinside |>.imp_right List.forall_mem_cons.mp
      have hlength := length_command (by omega) hcommand
      refine le_trans ?_ (Nat.le_mul_of_pos_left _ (by omega : 0 < 32 + image.sizeofcmds - o))
      rw [List.length_cons, List.length_cons]
      omega
    · obtain ⟨height, hzero, hnext⟩ := id h
      rw [walk_next h hvalue] at hinside ⊢
      obtain ⟨-, -, hinside⟩ :=
        List.forall_mem_cons.mp hinside |>.imp_right List.forall_mem_cons.mp
      obtain ⟨hcommand, hrest⟩ := List.forall_mem_append.mp hinside
      have hlength := length_command (by omega) hcommand
      have hlengths := ih hnext hrest
      obtain ⟨k, hk⟩ := Nat.exists_eq_add_of_lt (by omega :
        32 + image.sizeofcmds - (o + image.cmdsize o) < 32 + image.sizeofcmds - o)
      rw [List.length_cons, List.length_cons, List.length_append, hk]
      calc (image.command o).reads.length + (image.walk n (o + image.cmdsize o)).reads.length +
            1 + 1
          ≤ (image.sizeofcmds + 8) + (32 + image.sizeofcmds - (o + image.cmdsize o)) *
              (image.sizeofcmds + 8) := by omega
        _ ≤ (32 + image.sizeofcmds - (o + image.cmdsize o) + k + 1) * (image.sizeofcmds + 8) := by
          rw [Nat.add_assoc, Nat.add_mul, Nat.add_mul, Nat.one_mul]
          omega

-- ---------------------------------------------------------------------------
-- The header
-- ---------------------------------------------------------------------------

theorem machoTextSection_other (h : image.field 0 4 ≠ mhMagic64) :
    machoTextSection image.mem image.header =
      { reads := [⟨image.header, 4⟩], results := [], value := none } := by
  have hzero : behind image.header 0 = image.header := behind_of_lt image.low
  unfold field at h
  rw [hzero] at h
  rw [machoTextSection]
  apply Reading.ext <;> simp [h]

theorem machoTextSection_magic (h : image.field 0 4 = mhMagic64) :
    machoTextSection image.mem image.header =
      { reads := ⟨image.header, 4⟩ :: ⟨behind image.header 16, 4⟩ ::
          ⟨behind image.header 20, 4⟩ :: (image.walk image.ncmds 32).reads
        results := (image.header + 16) :: (image.header + 20) ::
          (image.walk image.ncmds 32).results
        value := (image.walk image.ncmds 32).value } := by
  have hzero : behind image.header 0 = image.header := behind_of_lt image.low
  have hsize : ¬ 2 ^ 64 ≤ 32 + image.sizeofcmds := by
    have := image.sizeofcmds_lt
    omega
  unfold sizeofcmds field at hsize
  unfold field at h
  rw [hzero] at h
  rw [machoTextSection]
  unfold walk ncmds sizeofcmds field
  apply Reading.ext <;> simp only [reads_bind, results_bind, value_bind, reads_add, results_add,
    value_add, reads_readNat, results_readNat, value_readNat, h, ne_eq, not_true_eq_false, if_false,
    if_neg hsize, List.nil_append, List.cons_append]

theorem inside_header (k : Nat) (hk : k + 4 ≤ 32) :
    image.Inside ⟨behind image.header k, 4⟩ := by
  rw [inside_iff _ _ (by omega) (by omega)]
  omega

theorem inside_macho :
    (∀ span ∈ (machoTextSection image.mem image.header).reads, image.Inside span) ↔
      image.Fits := by
  have hmagic := image.inside_header 0 (by omega)
  rw [show behind image.header 0 = image.header from behind_of_lt image.low] at hmagic
  by_cases h : image.field 0 4 = mhMagic64
  · rw [machoTextSection_magic h, List.forall_mem_cons, List.forall_mem_cons, List.forall_mem_cons,
      and_iff_right hmagic, and_iff_right (inside_header 16 (by omega)),
      and_iff_right (inside_header 20 (by omega)), Fits, forall_prop_of_true h]
    exact inside_walk (Nat.le_add_right _ _)
  · rw [machoTextSection_other h]
    exact iff_of_true (List.forall_mem_singleton.mpr hmagic) fun hm => absurd hm h

theorem results_macho (hlow : image.header < 2 ^ 47) :
    ∀ x ∈ (machoTextSection image.mem image.header).results, x < 2 ^ 64 := by
  by_cases h : image.field 0 4 = mhMagic64
  · rw [machoTextSection_magic h, List.forall_mem_cons, List.forall_mem_cons]
    exact ⟨by omega, by omega, results_walk hlow (Nat.le_add_right _ _)⟩
  · rw [machoTextSection_other h]
    exact List.forall_mem_nil _

theorem length_macho
    (hinside : ∀ span ∈ (machoTextSection image.mem image.header).reads, image.Inside span) :
    (machoTextSection image.mem image.header).reads.length ≤ workBound image.sizeofcmds := by
  unfold workBound
  by_cases h : image.field 0 4 = mhMagic64
  · rw [machoTextSection_magic h] at hinside ⊢
    have hwalk := length_walk (Nat.le_add_right 32 image.sizeofcmds) fun span hspan =>
      hinside span (List.mem_cons_of_mem _ (List.mem_cons_of_mem _ (List.mem_cons_of_mem _ hspan)))
    rw [Nat.add_sub_cancel_left] at hwalk
    rw [List.length_cons, List.length_cons, List.length_cons]
    omega
  · rw [machoTextSection_other h, List.length_singleton]
    omega

-- ---------------------------------------------------------------------------
-- Well-formed headers
-- ---------------------------------------------------------------------------

theorem commandFrom_succ (o i : Nat) : image.commandFrom o (i + 1) =
    image.commandFrom o i + image.cmdsize (image.commandFrom o i) := by
  induction i generalizing o with
  | zero => rfl
  | succ i ih => exact ih (o + image.cmdsize o)

theorem commandFrom_mono {i j : Nat} (h : i ≤ j) :
    image.commandFrom o i ≤ image.commandFrom o j := by
  induction h with
  | refl => exact Nat.le_refl _
  | step _ ih =>
    rw [commandFrom_succ]
    omega

theorem slid_eq_iff : behind image.header (image.field (sectionAt o s + 32) 8) = image.slid o s ↔
    image.vmaddr o = 0 := by
  have hlow := image.low
  have hlt : image.vmaddr o < 2 ^ 64 := field_lt (o + 24) 8
  unfold slid behind wrap
  omega

variable {i : Nat}

theorem WellFormed.complete (h : image.WellFormed) (hi : i < image.ncmds) :
    image.Complete (image.commandFrom 32 i) := by
  have hsize := h.size i hi
  have hle := image.commandFrom_mono (o := 32) (Nat.succ_le_of_lt hi)
  rw [h.fills, commandFrom_succ] at hle
  exact ⟨by omega, by omega, hle⟩

theorem WellFormed.firstCode_iff (h : image.WellFormed) (hi : i < image.ncmds)
    (htext : image.IsText (image.commandFrom 32 i)) :
    image.firstCode (image.commandFrom 32 i) = some s ↔
      image.IsCode (image.commandFrom 32 i) s := by
  refine ⟨isCode_of_firstCode, fun hs => ?_⟩
  cases hfirst : image.firstCode (image.commandFrom 32 i) with
  | none => exact absurd hs (firstCode_eq_none.mp hfirst s)
  | some t => rw [h.code i hi htext t s (isCode_of_firstCode hfirst) hs]

/-- In a well-formed header, what is returned is what there is. -/
theorem WellFormed.value (h : image.WellFormed) :
    (machoTextSection image.mem image.header).value = some found ↔
      ∃ i < image.ncmds, image.IsText (image.commandFrom 32 i) ∧
        ∃ s, image.IsCode (image.commandFrom 32 i) s ∧
          found = image.codeAt (image.commandFrom 32 i) s := by
  rw [machoTextSection_magic h.magic]
  refine (value_walk (Nat.le_add_right _ _)).trans ⟨?_, ?_⟩
  · rintro ⟨i, hi, hvalue⟩
    obtain ⟨htext, s, hfirst, hfound⟩ := value_command_eq_some.mp hvalue
    exact ⟨i, hi.1, htext, s, isCode_of_firstCode hfirst, hfound⟩
  · rintro ⟨i, hi, htext, s, hcode, hfound⟩
    refine ⟨i, ⟨hi, fun j hj => h.complete (Nat.lt_of_le_of_lt hj hi), fun j hj hhas => ?_⟩,
      value_command_eq_some.mpr ⟨htext, s, (h.firstCode_iff hi htext).mpr hcode, hfound⟩⟩
    have heq := h.text j (hj.trans hi) i hi hhas.1 htext
    omega

/-- Well-formed headers are looked at inside only. -/
theorem WellFormed.fits (h : image.WellFormed) : image.Fits := by
  intro _ i hi hcmd
  obtain ⟨-, -, hnext⟩ := h.complete hi.1
  rw [h.segment i hi.1 hcmd] at hnext
  unfold extent
  split
  · cases hfirst : image.firstCode (image.commandFrom 32 i) with
    | some s =>
      have hs := (isCode_of_firstCode hfirst).1
      simp only [sectionAt]
      omega
    | none =>
      simp only [sectionAt]
      split <;> omega
  · omega

theorem finds_iff :
    (image.WellFormed → ∀ found,
      (machoTextSection image.mem image.header).value = some found ↔
        ∃ i < image.ncmds, image.IsText (image.commandFrom 32 i) ∧
          ∃ s, image.IsCode (image.commandFrom 32 i) s ∧
            found = (image.slid (image.commandFrom 32 i) s,
              image.field (sectionAt (image.commandFrom 32 i) s + 40) 8)) ↔ image.Unslid := by
  refine forall_congr' fun h => ⟨fun hfinds i hi hhas => ?_, fun hslid found => ?_⟩
  · obtain ⟨htext, s, hcode⟩ := hhas
    obtain ⟨j, hj, htext', t, hcode', hfound⟩ :=
      (hfinds _).mp (h.value.mpr ⟨i, hi, htext, s, hcode, rfl⟩)
    cases h.text i hi j hj htext htext'
    cases h.code i hi htext s t hcode hcode'
    exact slid_eq_iff.mp (Prod.mk.inj hfound).1
  · rw [h.value]
    refine exists_congr fun i => and_congr_right fun hi => and_congr_right fun htext =>
      exists_congr fun s => and_congr_right fun hcode => ?_
    rw [codeAt, slid_eq_iff.mpr (hslid i hi ⟨htext, s, hcode⟩)]

theorem walks_iff (image : Image) : image.Walks ↔ image.Fits ∧ image.Unslid := by
  constructor
  · intro h
    exact ⟨inside_macho.mp h.inside, finds_iff.mp h.finds⟩
  · rintro ⟨hfits, hslid⟩
    have hinside := inside_macho.mpr hfits
    exact ⟨hinside, results_macho, length_macho hinside, finds_iff.mpr hslid⟩

/-- One segment command of eight bytes, and nothing after it. -/
def shortSegment : Image where
  mem a := [0xcf, 0xfa, 0xed, 0xfe, 0, 0, 0, 0, 0, 0, 0, 0, 0, 0, 0, 0, 1, 0, 0, 0, 8, 0, 0, 0,
    0, 0, 0, 0, 0, 0, 0, 0, 0x19, 0, 0, 0, 8, 0, 0, 0].getD (a - 0x1000) 0
  header := 0x1000
  low := by decide
  mapped := by decide

/-- The name of a segment is read behind the commands. -/
theorem shortSegment_reads_outside : ¬ shortSegment.Walks := by
  intro h
  have hread : ⟨behind shortSegment.header 40, 16⟩ ∈
      (machoTextSection shortSegment.mem shortSegment.header).reads := by decide +kernel
  exact absurd (h.inside _ hread) (by decide +kernel)

end Image

end ShinySongTools.Recon
