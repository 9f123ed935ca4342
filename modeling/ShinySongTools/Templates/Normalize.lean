import ShinySongTools.Templates.Candidate

/-!
# A candidate and the text it came from

The template is the text with holes, and with the arguments in them it is the
text again. A protected match may begin before a token and stop inside it, at
the first of its two closing braces; the other brace is then plain text to the
scan, and the two are together again in what it writes.
-/

namespace ShinySongTools.Templates

open Regex Holed Keyed

variable {s s' : Filling} {ls : Holed UInt16} {text : Text}

-- ---------------------------------------------------------------------------
-- Fillings
-- ---------------------------------------------------------------------------

def Filling.value (s : Filling) (w : Text) : Text := ((s.args.lookup w).map Arg.source).getD []

/-- No token is given out twice, and only tokens are. -/
structure Filling.Sound (s : Filling) : Prop where
  fresh : ∀ kind index, s.counters kind ≤ index → s.args.lookup (token kind index) = none
  tokens : ∀ w, (s.args.lookup w).isSome → w ∈ customPattern.language
  nodup : (s.args.map Prod.fst).Nodup

def Filling.Extends (s s' : Filling) : Prop :=
  ∀ w arg, s.args.lookup w = some arg → s'.args.lookup w = some arg

theorem Filling.Extends.refl (s : Filling) : s.Extends s := fun _ _ h => h

theorem Filling.Extends.trans {s'' : Filling} (h : s.Extends s') (h' : s'.Extends s'') :
    s.Extends s'' := fun w arg harg => h' w arg (h w arg harg)

theorem Filling.sound_empty : Filling.empty.Sound where
  fresh _ _ _ := rfl
  tokens _ h := by cases h
  nodup := List.nodup_nil

theorem Filling.Sound.next (hs : s.Sound) (kind : Kind) (arg : Arg) :
    (s.next kind arg).2.Sound ∧ s.Extends (s.next kind arg).2 ∧
      (s.next kind arg).2.args.lookup (s.next kind arg).1 = some arg := by
  refine ⟨⟨fun kind' index hindex => ?_, fun w hw => ?_, nodup_assoc hs.nodup⟩,
    fun w arg' harg' => ?_, lookup_assoc_self⟩
  · by_cases hkind : kind' = kind
    · subst hkind
      have hlt : s.counters kind' + 1 ≤ index := by simpa [Filling.next] using hindex
      have hne : token kind' index ≠ token kind' (s.counters kind') :=
        fun heq => by have := (token_injective heq).2; omega
      exact (lookup_assoc_of_ne hne).trans (hs.fresh kind' index (by omega))
    · have hle : s.counters kind' ≤ index := by simpa [Filling.next, hkind] using hindex
      have hne : token kind' index ≠ token kind (s.counters kind) :=
        fun heq => hkind (token_injective heq).1
      exact (lookup_assoc_of_ne hne).trans (hs.fresh kind' index hle)
  · by_cases heq : w = token kind (s.counters kind)
    · rw [heq]
      exact token_mem_customPattern kind _
    · exact hs.tokens w ((lookup_assoc_of_ne heq) ▸ hw)
  · have hne : w ≠ token kind (s.counters kind) := by
      rintro rfl
      rw [hs.fresh kind _ (Nat.le_refl _)] at harg'
      cases harg'
    exact (lookup_assoc_of_ne hne).trans harg'

theorem Filling.eq_of_next {kind : Kind} {arg : Arg} {w : Text}
    (h : ((s.next kind arg).2.args.lookup w).isSome) :
    (s.args.lookup w).isSome ∨ w = (s.next kind arg).1 := by
  by_cases heq : w = token kind (s.counters kind)
  · exact .inr heq
  · exact .inl (lookup_assoc_of_ne heq ▸ h)

/-- The arguments fill the holes, and the text is there. -/
structure Fills (s : Filling) (ls : Holed UInt16) (text : Text) : Prop where
  known : ∀ w ∈ names ls, (s.args.lookup w).isSome
  filled_eq : filled s.value ls = text

theorem Fills.mono (h : Fills s ls text) (hext : s.Extends s') : Fills s' ls text where
  known w hw := by
    obtain ⟨arg, harg⟩ := Option.isSome_iff_exists.mp (h.known w hw)
    rw [hext w arg harg]
    rfl
  filled_eq := by
    rw [← h.filled_eq]
    refine filled_congr fun w hw => ?_
    obtain ⟨arg, harg⟩ := Option.isSome_iff_exists.mp (h.known w hw)
    rw [Filling.value, Filling.value, harg, hext w arg harg]

theorem fills_plain (s : Filling) (text : Text) : Fills s (plain text) text :=
  ⟨by simp, filled_plain _ _⟩

theorem Fills.of_cons {a : UInt16} (h : Fills s (.inl a :: ls) (a :: text)) : Fills s ls text :=
  ⟨h.known, (List.cons.inj h.filled_eq).2⟩

theorem Fills.right {ls' : Holed UInt16} (h : Fills s (ls ++ ls') text) :
    Fills s ls' (filled s.value ls') :=
  ⟨fun w hw => h.known w (by rw [names_append]; exact List.mem_append_right _ hw), rfl⟩

theorem Fills.left {ls' : Holed UInt16} (h : Fills s (ls ++ ls') text) :
    Fills s ls (filled s.value ls) :=
  ⟨fun w hw => h.known w (by rw [names_append]; exact List.mem_append_left _ hw), rfl⟩

theorem Fills.append {ls' : Holed UInt16} {text' : Text} (h : Fills s ls text)
    (h' : Fills s ls' text') : Fills s (ls ++ ls') (text ++ text') where
  known w hw := by
    rw [names_append, List.mem_append] at hw
    exact hw.elim (h.known w) (h'.known w)
  filled_eq := by rw [filled_append, h.filled_eq, h'.filled_eq]

theorem fills_hole {w : Text} {arg : Arg} (h : s.args.lookup w = some arg) :
    Fills s [.inr w] arg.source where
  known w' hw' := by
    rw [List.mem_singleton.mp hw', h]
    rfl
  filled_eq := by simp [Filling.value, h]

/-- The tokens of a text are written again, and those that are given out. -/
structure Writes (s s' : Filling) (ls ls' : Holed UInt16) : Prop where
  keeps : ∀ w ∈ names ls, w ∈ names ls'
  new : ∀ w, (s'.args.lookup w).isSome → (s.args.lookup w).isSome ∨ w ∈ names ls'

theorem Writes.next {kind : Kind} {arg : Arg} {ls' : Holed UInt16} (gap : Text)
    (h : Writes (s.next kind arg).2 s' ls ls') :
    Writes s s' ls (plain gap ++ ([.inr (s.next kind arg).1] ++ ls')) where
  keeps w hw := by
    rw [names_append, names_append]
    exact List.mem_append_right _ (List.mem_append_right _ (h.keeps w hw))
  new w hw := by
    rw [names_append, names_plain]
    obtain hw | hw := h.new w hw
    · refine (Filling.eq_of_next hw).imp_right fun heq => ?_
      rw [heq]
      exact List.mem_cons_self
    · exact .inr (List.mem_cons_of_mem _ hw)

/-- What comes before the rest is written first. -/
theorem Writes.append {s'' : Filling} {front front' ls' : Holed UInt16}
    (hfront : Writes s s' front front') (h : Writes s' s'' ls ls') :
    Writes s s'' (front ++ ls) (front' ++ ls') where
  keeps w hw := by
    rw [names_append, List.mem_append] at hw ⊢
    exact hw.imp (hfront.keeps w) (h.keeps w)
  new w hw := by
    rw [names_append, List.mem_append]
    obtain hw | hw := h.new w hw
    · exact (hfront.new w hw).imp_right .inl
    · exact .inr (.inr hw)

theorem Writes.refl (s : Filling) (ls : Holed UInt16) : Writes s s ls ls :=
  ⟨fun _ => id, fun _ => .inl⟩

-- ---------------------------------------------------------------------------
-- Plain text
-- ---------------------------------------------------------------------------

def brace : UInt16 := unit '\x7d'

theorem closing_eq : closing = [brace, brace] := by decide

/-- A text with holes, written out with tokens for more of its parts, whose
values are kept. A closing brace at its beginning stays there. -/
structure Takes (s : Filling) (ls : Holed UInt16) (r : Text × Filling) : Prop where
  sound : r.2.Sound
  grows : s.Extends r.2
  letters : ∃ ls', r.1 = printed ls' ∧ Fills r.2 ls' (filled s.value ls) ∧ Writes s r.2 ls ls' ∧
    ∀ rest, ls = .inl brace :: rest → ∃ rest', ls' = .inl brace :: rest'

theorem begins_brace {r : Regex UInt16} (hbrace : r.begins brace = false)
    (hsolid : [] ∉ r.language) {m rest rest' : Text} (hm : m ∈ r.language)
    (h : m ++ rest = brace :: rest') : False := by
  cases m with
  | nil => exact hsolid hm
  | cons u m =>
    obtain ⟨rfl, -⟩ := List.cons.inj h
    exact Bool.false_ne_true (hbrace.symm.trans (begins_of_mem hm))

theorem takes_pieces {pieces : List (Text × Text)} {tail : Text}
    (h : scalarPattern.Tiling text pieces tail) (hs : s.Sound) :
    Takes s (plain text) (normalizePieces pieces tail s) := by
  induction h generalizing s with
  | @tail _ tail _ =>
    refine ⟨hs, .refl s, plain tail, (printed_plain tail).symm, ?_, .refl s _,
      fun rest h => ⟨rest, h⟩⟩
    rw [filled_plain]
    exact fills_plain s tail
  | @tile _ m rest gap pieces tail _ hm _ ih =>
    obtain ⟨hsound, hext, harg⟩ := hs.next (scalarKind m) (.literal m)
    obtain ⟨hsound', hext', ls', hprinted, hfills, hwrites, -⟩ := ih hsound
    rw [filled_plain] at hfills
    refine ⟨hsound', hext.trans hext',
      plain gap ++ ([.inr (s.next (scalarKind m) (.literal m)).1] ++ ls'), ?_, ?_,
      ⟨by simp, fun w hw => (hwrites.next gap).new w hw⟩, fun rest' hbrace => ?_⟩
    · simp [normalizePieces, hprinted]
    · rw [filled_plain]
      exact (fills_plain _ gap).append (((fills_hole harg).mono hext').append hfills)
    · cases gap with
      | nil =>
        obtain ⟨u, text, htext, heq, -⟩ := List.map_eq_cons_iff.mp hbrace
        cases heq
        exact (begins_brace (by decide) scalarPattern_solid hm htext).elim
      | cons u gap =>
        cases (List.cons.inj hbrace).1
        exact ⟨_, rfl⟩

theorem takes_plain (text : Text) (hs : s.Sound) : Takes s (plain text) (normalizePlain text s) :=
  takes_pieces (tiling_tiles scalarPattern_solid text) hs

-- ---------------------------------------------------------------------------
-- Protected matches and tokens
-- ---------------------------------------------------------------------------

/-- Where the first closing brace of a printed text is: plain, or a token's. -/
theorem split_brace {y rest : Text} (hls : ∀ w ∈ names ls, w ∈ customPattern.language)
    (h : printed ls = y ++ brace :: rest) (hy : brace ∉ y) :
    (∃ ls', ls = plain y ++ .inl brace :: ls' ∧ printed ls' = rest) ∨
      ∃ g body ls', ls = plain g ++ .inr (body ++ closing) :: ls' ∧ y = g ++ body ∧
        rest = brace :: printed ls' := by
  induction ls generalizing y with
  | nil => exact absurd h.symm (List.append_ne_nil_of_right_ne_nil _ (List.cons_ne_nil _ _))
  | cons x ls ih =>
    cases x with
    | inl a =>
      cases y with
      | nil =>
        obtain ⟨rfl, hrest⟩ := List.cons.inj h
        exact .inl ⟨ls, rfl, hrest⟩
      | cons b y =>
        obtain ⟨rfl, hrest⟩ := List.cons.inj h
        obtain ⟨ls', rfl, hls'⟩ | ⟨g, body, ls', rfl, rfl, hls'⟩ :=
          ih hls hrest (List.not_mem_of_not_mem_cons hy)
        · exact .inl ⟨ls', rfl, hls'⟩
        · exact .inr ⟨a :: g, body, ls', rfl, rfl, hls'⟩
    | inr w =>
      obtain ⟨body, rfl, hbody⟩ := token_shape (hls w List.mem_cons_self)
      rw [printed_inr, List.append_assoc] at h
      obtain ⟨rfl, hrest⟩ := Scan.append_cons_inj hbody hy h
      exact .inr ⟨[], body, ls, rfl, rfl, hrest.symm⟩

/-- Where the first closing angle bracket of a printed text is: it is plain. -/
theorem split_angle {y rest : Text} (hls : ∀ w ∈ names ls, w ∈ customPattern.language)
    (h : printed ls = y ++ unit '>' :: rest) (hy : unit '>' ∉ y) :
    ∃ front ls', ls = front ++ .inl (unit '>') :: ls' ∧ printed front = y ∧ printed ls' = rest := by
  induction ls generalizing y with
  | nil => exact absurd h.symm (List.append_ne_nil_of_right_ne_nil _ (List.cons_ne_nil _ _))
  | cons x ls ih =>
    cases x with
    | inl a =>
      cases y with
      | nil =>
        obtain ⟨rfl, hrest⟩ := List.cons.inj h
        exact ⟨[], ls, rfl, rfl, hrest⟩
      | cons b y =>
        obtain ⟨rfl, hrest⟩ := List.cons.inj h
        obtain ⟨front, ls', rfl, rfl, hls'⟩ := ih hls hrest (List.not_mem_of_not_mem_cons hy)
        exact ⟨.inl a :: front, ls', rfl, rfl, hls'⟩
    | inr w =>
      have hw : unit '>' ∉ w := not_mem_of_excludes (by decide) (hls w List.mem_cons_self)
      have hls := (List.forall_mem_cons.mp hls).2
      rw [printed_inr] at h
      -- the token ends before the bracket
      have hsplit : ∃ y', y = w ++ y' ∧ printed ls = y' ++ unit '>' :: rest := by
        obtain ⟨y', rfl, hrest⟩ | ⟨w', rfl, hrest⟩ := List.append_eq_append_iff.mp h
        · exact ⟨y', rfl, hrest⟩
        · cases w' with
          | nil => exact ⟨[], by simp, hrest.symm⟩
          | cons b w' =>
            refine absurd (List.mem_append_right y ?_) hw
            exact (List.cons.inj hrest).1 ▸ List.mem_cons_self
      obtain ⟨y', rfl, hrest⟩ := hsplit
      obtain ⟨front, ls', rfl, rfl, hls'⟩ :=
        ih hls hrest fun hmem => hy (List.mem_append_right w hmem)
      exact ⟨.inr w :: front, ls', rfl, rfl, hls'⟩

/-- What a protected match covers of a text with holes: whole letters, or a
token but for its last brace. -/
theorem split_protected {m rest : Text} (hm : m ∈ protectedPattern.language)
    (hls : ∀ w ∈ names ls, w ∈ customPattern.language) (h : printed ls = m ++ rest)
    (hfree : ¬ reserved <:+: filled s.value ls) :
    (∃ front ls', ls = front ++ ls' ∧ m = printed front ∧ rest = printed ls') ∨
      ∃ g body ls', ls = plain g ++ .inr (body ++ closing) :: ls' ∧ m = g ++ body ++ [brace] ∧
        rest = brace :: printed ls' := by
  obtain ⟨y, rfl, hy⟩ | hm | ⟨y, rfl, hy⟩ | ⟨inner, rfl, hinner⟩ := protected_cases hm
  · rw [List.append_assoc] at h
    obtain ⟨ls', rfl, rfl⟩ | ⟨g, body, ls', rfl, rfl, rfl⟩ := split_brace hls h hy
    · exact .inl ⟨plain y ++ [.inl brace], ls', by simp, by simp [brace], rfl⟩
    · exact .inr ⟨g, body, ls', rfl, rfl, rfl⟩
  · have havoids : ∀ w ∈ names ls, Scan.Avoids w rest m := by
      intro w hw
      obtain ⟨tail, rfl, -⟩ := token_tail (hls w hw)
      exact Scan.avoids_of_head_not_mem hm
    obtain ⟨ls', rfl, rfl⟩ := eq_plain_append h havoids
    exact .inl ⟨plain m, ls', rfl, (printed_plain m).symm, rfl⟩
  · rw [List.append_assoc] at h
    obtain ⟨front, ls', rfl, rfl, rfl⟩ := split_angle hls h hy
    exact .inl ⟨front ++ [.inl (unit '>')], ls', by simp, by simp, rfl⟩
  · have hy : brace ∉ reserved ++ inner := List.not_mem_append (by decide) hinner
    have h : printed ls = reserved ++ inner ++ brace :: (brace :: rest) := by
      rw [h, List.append_assoc _ closing]
      rfl
    obtain ⟨ls', rfl, -⟩ | ⟨g, body, ls', rfl, hbody, hrest⟩ := split_brace hls h hy
    · refine absurd ?_ hfree
      rw [filled_append, filled_plain, List.append_assoc, ← List.nil_append (reserved ++ _)]
      exact ⟨[], _, List.append_assoc _ _ _⟩
    · refine .inl ⟨plain g ++ [.inr (body ++ closing)], ls', by simp, ?_, (List.cons.inj hrest).2⟩
      simp [hbody]

/-- Plain text is taken first, then what is behind it, which does not begin with
a closing brace. -/
theorem Takes.append {gap out : Text} {r : Text × Filling} {ls' lr : Holed UInt16}
    (h : Takes s (plain gap) r) (hsound : s'.Sound) (hext : r.2.Extends s')
    (hout : out = printed lr) (hfills : Fills s' lr (filled s.value ls'))
    (hwrites : Writes r.2 s' ls' lr) (hhead : ∀ rest, printed ls' ≠ brace :: rest) :
    Takes s (plain gap ++ ls') (r.1 ++ out, s') := by
  obtain ⟨-, hgrows, lg, hlg, hgap, hwritten, hbrace⟩ := h
  refine ⟨hsound, hgrows.trans hext, lg ++ lr, ?_, ?_, hwritten.append hwrites,
    fun rest hrest => ?_⟩
  · rw [printed_append, hlg, hout]
  · rw [filled_append]
    exact (hgap.mono hext).append hfills
  · cases gap with
    | nil =>
      obtain rfl : ls' = .inl brace :: rest := hrest
      exact absurd rfl (hhead (printed rest))
    | cons u gap =>
      cases (List.cons.inj hrest).1
      obtain ⟨rest', rfl⟩ := hbrace _ rfl
      exact ⟨rest' ++ lr, rfl⟩

theorem takes_protected {pieces : List (Text × Text)} {tail : Text}
    (h : protectedPattern.Tiling text pieces tail) (htext : printed ls = text) (hs : s.Sound)
    (hls : ∀ w ∈ names ls, (s.args.lookup w).isSome) (hfree : ¬ reserved <:+: filled s.value ls) :
    Takes s ls (normalizeProtected pieces tail s) := by
  induction h generalizing s ls with
  | @tail _ tail hquiet =>
    have hcustom : ∀ w ∈ names ls, w ∈ customPattern.language := fun w hw => hs.tokens w (hls w hw)
    have havoids : ∀ w ∈ names ls, Scan.Avoids w [] tail :=
      fun w hw => hquiet.avoids protectedPattern_plain (token_protected (hcustom w hw))
    obtain ⟨ls', rfl, hnil⟩ := eq_plain_append (htext.trans (List.append_nil _).symm) havoids
    rw [names_append, names_plain, List.nil_append] at hcustom
    obtain rfl := custom_vocabulary.eq_nil hcustom hnil
    rw [List.append_nil]
    exact takes_plain tail hs
  | @tile _ m rest gap pieces tail hquiet hm _ ih =>
    have hcustom : ∀ w ∈ names ls, w ∈ customPattern.language := fun w hw => hs.tokens w (hls w hw)
    have havoids : ∀ w ∈ names ls, Scan.Avoids w (m ++ rest) gap :=
      fun w hw => hquiet.avoids protectedPattern_plain (token_protected (hcustom w hw))
    obtain ⟨ls', rfl, hls'⟩ := eq_plain_append htext havoids
    rw [names_append, names_plain, List.nil_append] at hls hcustom
    rw [filled_append, filled_plain] at hfree
    have hfree : ¬ reserved <:+: filled s.value ls' :=
      fun h => hfree (h.trans (List.suffix_append _ _).isInfix)
    have hplain := takes_plain gap hs
    have hhead (rest' : Text) : printed ls' ≠ brace :: rest' := by
      rw [hls']
      exact fun h => (begins_brace (by decide) protectedPattern_solid hm h).elim
    have hfills : Fills s ls' (filled s.value ls') := ⟨hls, rfl⟩
    have hwrites : normalizeProtected ((gap, m) :: pieces) tail s =
        ((normalizePlain gap s).1 ++
          (m ++ (normalizeProtected pieces tail (normalizePlain gap s).2).1),
          (normalizeProtected pieces tail (normalizePlain gap s).2).2) := by
      simp only [normalizeProtected, List.append_assoc]
    rw [hwrites]
    clear hwrites
    generalize normalizePlain gap s = r at *
    obtain ⟨front, ls', rfl, rfl, rfl⟩ | ⟨g, body, ls', rfl, rfl, rfl⟩ :=
      split_protected hm hcustom hls' hfree
    · -- the match covers whole letters
      have hrest := hfills.right.mono hplain.grows
      have hfree : ¬ reserved <:+: filled r.2.value ls' := by
        rw [hrest.filled_eq]
        rw [filled_append] at hfree
        exact fun h => hfree (h.trans (List.suffix_append _ _).isInfix)
      obtain ⟨hsound, hext, ls'', hout, hfilled, hwritten, -⟩ :=
        ih rfl hplain.sound hrest.known hfree
      rw [hrest.filled_eq] at hfilled
      have hprinted : front.printed ++ (normalizeProtected pieces tail r.2).1 =
          printed (front ++ ls'') := by
        rw [printed_append, hout]
      refine hplain.append hsound hext hprinted ?_ ((Writes.refl r.2 front).append hwritten) hhead
      rw [filled_append]
      exact (hfills.left.mono (hplain.grows.trans hext)).append hfilled
    · -- the match stops between the braces of a token
      have hlast : Fills s ([.inr (body ++ closing)] ++ ls') _ := hfills.right
      have hnext : Fills r.2 (.inl brace :: ls') (brace :: filled s.value ls') :=
        (fills_plain r.2 [brace]).append (hlast.right.mono hplain.grows)
      have hfree : ¬ reserved <:+: filled r.2.value (.inl brace :: ls') := by
        rw [hnext.filled_eq]
        intro h
        obtain ⟨_, h⟩ | h := List.infix_cons_iff.mp h
        · cases h
        · refine hfree (h.trans (List.IsSuffix.isInfix ?_))
          rw [filled_append, filled_inr]
          exact (List.suffix_append _ _).trans (List.suffix_append _ _)
      obtain ⟨hsound, hext, lo, hout, hfilled, hwritten, hbrace⟩ :=
        ih rfl hplain.sound hnext.known hfree
      obtain ⟨ls'', rfl⟩ := hbrace ls' rfl
      rw [hnext.filled_eq] at hfilled
      have hprinted : g ++ body ++ [brace] ++ (normalizeProtected pieces tail r.2).1 =
          printed (plain g ++ ([.inr (body ++ closing)] ++ ls'')) := by
        rw [hout]
        simp [closing_eq]
      have hwrites : Writes r.2 _ ls' ls'' := ⟨hwritten.keeps, hwritten.new⟩
      have hwrites := (Writes.refl r.2 (plain g ++ [.inr (body ++ closing)])).append hwrites
      rw [List.append_assoc, List.append_assoc] at hwrites
      refine hplain.append hsound hext hprinted ?_ hwrites hhead
      have hgrows := hplain.grows.trans hext
      have hcons : filled s.value (plain g ++ .inr (body ++ closing) :: ls') =
          g ++ (filled s.value [.inr (body ++ closing)] ++ filled s.value ls') := by
        simp
      rw [hcons]
      exact (fills_plain _ g).append ((hlast.left.mono hgrows).append hfilled.of_cons)

end ShinySongTools.Templates
