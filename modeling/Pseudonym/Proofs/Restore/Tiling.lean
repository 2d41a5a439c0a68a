import Pseudonym.Proofs.Token.Grammar

/-!
# What is restored and what is left

Restoring takes a text apart into tokens and the gaps around them (`Markers.tiling`). Put together
again they are the text; with the tokens replaced by their names they are the restored text. So
restoring changes nothing but tokens.

What is left in the gaps is said by one induction along the search. A token in a gap cannot begin
where the search looked for one, so it begins inside an opening marker that led nowhere: the markers
overlap,

    lead ++ opening = opening ++ tail,

and `tail`, which is the beginning of what the search took for the body, spells nothing
(`FalseStart`). If `tail` spelled something, it would do so in front of the body of the token as well
(`IsToken.append`), and the search would have found a token.
-/

namespace Pseudonym

open Text

/-! ### Tilings -/

/-- A token in a text, behind a gap that no token covers. -/
structure Tile where
  /-- The text between the token before and this one. -/
  gap : List Char
  /-- The body of the token. -/
  body : List Char
  /-- The name that the token stands for. -/
  name : List Char
deriving DecidableEq, Repr

/-- A text taken apart into tokens and gaps. -/
structure Tiling where
  /-- The tokens, in order. -/
  tiles : List Tile
  /-- The gap behind the last token. -/
  last : List Char
deriving DecidableEq, Repr

namespace Tiling

/-- The text that was taken apart. -/
def written (m : Markers) (t : Tiling) : List Char :=
  t.tiles.flatMap (fun tile => tile.gap ++ (m.opening ++ tile.body ++ m.closing)) ++ t.last

/-- The text with a name for each token. -/
def restored (t : Tiling) : List Char := t.tiles.flatMap (fun tile => tile.gap ++ tile.name) ++ t.last

/-- What no token covers. -/
def gaps (t : Tiling) : List (List Char) := t.tiles.map Tile.gap ++ [t.last]

/-- The tiling with more text in front of its first gap. -/
def prepend (text : List Char) : Tiling → Tiling
  | ⟨[], last⟩ => ⟨[], text ++ last⟩
  | ⟨tile :: tiles, last⟩ => ⟨{ tile with gap := text ++ tile.gap } :: tiles, last⟩

/-- The tiling that segments make: kept stretches that follow each other are one gap. -/
def ofSegments : List Markers.Segment → Tiling
  | [] => ⟨[], []⟩
  | .kept text :: segments => (ofSegments segments).prepend text
  | .token body name :: segments =>
    ⟨⟨[], body, name⟩ :: (ofSegments segments).tiles, (ofSegments segments).last⟩

variable (m : Markers) (text : List Char) (t : Tiling)

theorem written_prepend : (t.prepend text).written m = text ++ t.written m := by
  obtain ⟨_ | ⟨tile, tiles⟩, last⟩ := t
  · rfl
  · simp only [prepend, written, List.flatMap_cons, List.append_assoc]

theorem restored_prepend : (t.prepend text).restored = text ++ t.restored := by
  obtain ⟨_ | ⟨tile, tiles⟩, last⟩ := t
  · rfl
  · simp only [prepend, restored, List.flatMap_cons, List.append_assoc]

/-- The text in front joins the first gap. -/
theorem exists_gaps_prepend :
    ∃ first others, t.gaps = first :: others ∧ (t.prepend text).gaps = (text ++ first) :: others := by
  obtain ⟨_ | ⟨tile, tiles⟩, last⟩ := t
  · exact ⟨last, [], rfl, rfl⟩
  · exact ⟨tile.gap, tiles.map Tile.gap ++ [last], rfl, rfl⟩

theorem tiles_prepend_eq_nil : (t.prepend text).tiles = [] ↔ t.tiles = [] := by
  obtain ⟨_ | ⟨tile, tiles⟩, last⟩ := t
  · rfl
  · simp [prepend]

theorem mem_tiles_prepend {tile : Tile} (h : tile ∈ (t.prepend text).tiles) :
    ∃ original ∈ t.tiles, original.body = tile.body ∧ original.name = tile.name := by
  obtain ⟨_ | ⟨first, tiles⟩, last⟩ := t
  · cases h
  · rcases List.mem_cons.1 h with rfl | h
    · exact ⟨first, List.mem_cons_self, rfl, rfl⟩
    · exact ⟨tile, List.mem_cons_of_mem first h, rfl, rfl⟩

theorem prefix_written_of_gaps {first : List Char} {others : List (List Char)}
    (h : t.gaps = first :: others) : first <+: t.written m := by
  obtain ⟨_ | ⟨tile, tiles⟩, last⟩ := t
  · obtain ⟨rfl, _⟩ := List.cons.inj h
    exact List.prefix_refl last
  · obtain ⟨rfl, _⟩ := List.cons.inj h
    simp only [written, List.flatMap_cons, List.append_assoc]
    exact List.prefix_append _ _

theorem infix_written_of_mem {t : Tiling} {tile : Tile} (h : tile ∈ t.tiles) :
    m.opening ++ tile.body ++ m.closing <:+: t.written m := by
  have inside : tile.gap ++ (m.opening ++ tile.body ++ m.closing) <:+:
      t.tiles.flatMap fun tile => tile.gap ++ (m.opening ++ tile.body ++ m.closing) := by
    rw [List.flatMap_def]
    exact List.infix_of_mem_flatten (List.mem_map_of_mem h)
  have behind : m.opening ++ tile.body ++ m.closing <:+ tile.gap ++ _ := List.suffix_append _ _
  exact (behind.isInfix.trans inside).trans (List.prefix_append _ t.last).isInfix

theorem written_ofSegments (segments : List Markers.Segment) :
    (ofSegments segments).written m = segments.flatMap (Markers.Segment.written m) := by
  induction segments with
  | nil => rfl
  | cons segment segments ih =>
    cases segment with
    | kept text => rw [ofSegments, written_prepend, ih]; rfl
    | token body name => rw [List.flatMap_cons, ← ih]; simp [ofSegments, written, Markers.Segment.written]

theorem restored_ofSegments (segments : List Markers.Segment) :
    (ofSegments segments).restored = segments.flatMap Markers.Segment.restored := by
  induction segments with
  | nil => rfl
  | cons segment segments ih =>
    cases segment with
    | kept text => rw [ofSegments, restored_prepend, ih]; rfl
    | token body name => rw [List.flatMap_cons, ← ih]; simp [ofSegments, restored, Markers.Segment.restored]

theorem tiles_ofSegments_eq_nil (segments : List Markers.Segment) :
    (ofSegments segments).tiles = [] ↔ segments.any Markers.Segment.isToken = false := by
  induction segments with
  | nil => simp [ofSegments]
  | cons segment segments ih =>
    cases segment with
    | kept text => rw [ofSegments, tiles_prepend_eq_nil, ih]; simp [Markers.Segment.isToken]
    | token body name => simp [ofSegments, Markers.Segment.isToken]

end Tiling

namespace Markers

variable {m : Markers}

/-- The tokens that restoring finds in a text, and the gaps around them. -/
def tiling (m : Markers) (text : List Char) : Tiling := Tiling.ofSegments (m.segments text)

theorem written_tiling (m : Markers) (text : List Char) : (m.tiling text).written m = text := by
  rw [tiling, Tiling.written_ofSegments, flatMap_written_segments]

theorem restored_tiling (m : Markers) (text : List Char) :
    (m.tiling text).restored = m.restoreText text :=
  Tiling.restored_ofSegments _

theorem restore?_eq_none_iff {text : String} :
    m.restore? text = none ↔ (m.tiling text.toList).tiles = [] := by
  rw [tiling, Tiling.tiles_ofSegments_eq_nil, restore?]
  simp

/-! ### Along the search -/

theorem tiling_of_none {text : List Char} (h : cut? m.opening text = none) :
    m.tiling text = ⟨[], text⟩ := by
  rw [tiling, m.segments_of_none h]
  simp [Tiling.ofSegments, Tiling.prepend]

theorem tiling_of_token {text before framed body name rest : List Char}
    (h : cut? m.opening text = some (before, framed))
    (hf : m.framed? framed = some (body, name, rest)) :
    m.tiling text = ⟨⟨before, body, name⟩ :: (m.tiling rest).tiles, (m.tiling rest).last⟩ := by
  rw [tiling, m.segments_of_token h hf]
  simp [Tiling.ofSegments, Tiling.prepend, tiling]

theorem tiling_of_no_token {text before framed : List Char}
    (h : cut? m.opening text = some (before, framed)) (hf : m.framed? framed = none) :
    m.tiling text = (m.tiling framed).prepend (before ++ m.opening) := by
  rw [tiling, m.segments_of_no_token h hf, Tiling.ofSegments, tiling]

/-! ### Tokens and the search -/

/-- Without separators, what stands behind what spells something is read apart from it. -/
theorem Spells.append {front back : List Char} {us vs : List UInt16} (hf : m.Spells front us)
    (letters : ∀ c ∈ front, isTokenChar c = true) (hb : m.Spells back vs) :
    m.Spells (front ++ back) (us ++ vs) := by
  have slash : isTokenChar '/' = false := by decide
  induction hf with
  | nil => exact hb
  | letter underscore other _ ih =>
    rw [List.forall_mem_cons] at letters
    rw [List.cons_append, List.append_assoc]
    exact .letter underscore other (ih letters.2)
  | escape digits _ ih =>
    exact .escape digits (ih fun c hc => letters c (by simp [hc]))
  | boundary => exact absurd (letters '/' (by simp [Markers.boundary])) (by simp [slash])
  | separatorOpening | separator => exact absurd (letters '/' (by simp)) (by simp [slash])

theorem IsToken.append {front back name name' : List Char} (hf : m.IsToken front name)
    (hb : m.IsToken back name') : m.IsToken (front ++ back) (name ++ name') := by
  rw [isToken_iff] at *
  rw [List.forall_mem_append, List.flatMap_append]
  exact ⟨⟨hf.1, hb.1⟩, hf.2.append hf.1 hb.2⟩

/-- No closing marker begins inside of what spells something without separators. -/
theorem Spells.cut?_closing {body : List Char} {us : List UInt16} (h : m.Spells body us)
    (letters : ∀ c ∈ body, isTokenChar c = true) (rest : List Char) :
    cut? m.closing (body ++ rest) =
      (cut? m.closing rest).map fun halves => (body ++ halves.1, halves.2) := by
  have slash : isTokenChar '/' = false := by decide
  induction h with
  | nil => simp
  | letter underscore other _ ih =>
    rw [List.forall_mem_cons] at letters
    rw [List.cons_append, cut?_cons (m.not_closing_prefix_of_ne underscore _), ih letters.2]
    simp only [Option.map_map, Function.comp_def, List.cons_append]
  | @escape a b c d u behind us digits _ ih =>
    have first := ih fun c hc => letters c (by simp [hc])
    have escaped := m.cut?_closing_escape u (behind ++ rest)
    rw [Markers.escape, digits, first] at escaped
    simpa only [Option.map_map, Function.comp_def, List.cons_append, List.nil_append] using escaped
  | boundary => exact absurd (letters '/' (by simp [Markers.boundary])) (by simp [slash])
  | separatorOpening | separator => exact absurd (letters '/' (by simp)) (by simp [slash])

/-- Behind an opening marker the body of a token and a closing marker are found. -/
theorem IsToken.framed? {body name : List Char} (h : m.IsToken body name) (rest : List Char) :
    m.framed? (body ++ (m.closing ++ rest)) = some (body, name, rest) := by
  have spelled := isToken_iff.1 h
  rw [framed?_eq, spelled.2.cut?_closing spelled.1, cut?_append_self]
  simp only [Option.map_some, List.append_nil, name?_eq_some_iff.2 h]

/-- What is found is the body of a token and a closing marker. -/
theorem isToken_of_framed? {framed body name rest : List Char}
    (h : m.framed? framed = some (body, name, rest)) :
    framed = body ++ m.closing ++ rest ∧ m.IsToken body name :=
  ⟨append_of_cut? (eq_of_framed? h).1, name?_eq_some_iff.1 (eq_of_framed? h).2⟩

theorem isToken_of_mem_tiling {text : List Char} :
    ∀ tile ∈ (m.tiling text).tiles, m.IsToken tile.body tile.name := by
  fun_induction segments m text with
  | case1 text none =>
    rw [tiling_of_none none]
    simp
  | case2 text before framed found body name rest token ih =>
    rw [tiling_of_token found token, List.forall_mem_cons]
    exact ⟨(isToken_of_framed? token).2, ih⟩
  | case3 text before framed found token ih =>
    rw [tiling_of_no_token found token]
    intro tile h
    obtain ⟨original, mem, body, name⟩ := Tiling.mem_tiles_prepend _ _ h
    rw [← body, ← name]
    exact ih original mem

/-! ### What is left -/

/-- An opening marker that begins `lead` before another one and overlaps it. The search takes
`tail`, the end of the later marker, for the beginning of a body, and it spells nothing. -/
structure FalseStart (m : Markers) (lead tail : List Char) : Prop where
  nonempty : lead ≠ []
  overlaps : lead.length < m.opening.length
  begins : lead ++ m.opening = m.opening ++ tail
  spellsNothing : ∀ name, ¬ m.IsToken tail name

/-- Where a part occurs that occurs first behind `front`: there, behind it, or so that it begins
inside the first occurrence. -/
theorem occurrence_cases {part text front framed before rest : List Char}
    (h : cut? part text = some (front, framed)) (found : text = before ++ part ++ rest) :
    (before = front ∧ framed = rest) ∨
      (∃ lead, lead ≠ [] ∧ lead.length < part.length ∧ before = front ++ lead ∧
        part ++ framed = lead ++ part ++ rest) ∨
      ∃ between, before = front ++ part ++ between ∧ framed = between ++ part ++ rest := by
  have whole := (append_of_cut? h).symm.trans found
  obtain ⟨lead, rfl⟩ : front <+: before :=
    List.prefix_of_prefix_length_le ⟨part ++ framed, (List.append_assoc ..).symm.trans whole⟩
      ⟨part ++ rest, (List.append_assoc ..).symm⟩ (length_le_of_cut? h found)
  have behind : part ++ framed = lead ++ part ++ rest := by
    simpa only [List.append_assoc, List.append_cancel_left_eq] using whole
  by_cases start : lead = []
  · subst start
    exact .inl ⟨List.append_nil front, List.append_cancel_left behind⟩
  · by_cases overlaps : lead.length < part.length
    · exact .inr (.inl ⟨lead, start, overlaps, rfl, behind⟩)
    · obtain ⟨between, rfl⟩ : part <+: lead :=
        List.prefix_of_prefix_length_le ⟨framed, rfl⟩
          ⟨part ++ rest, by rw [behind, List.append_assoc]⟩ (Nat.le_of_not_lt overlaps)
      refine .inr (.inr ⟨between, (List.append_assoc ..).symm, ?_⟩)
      simpa only [List.append_assoc, List.append_cancel_left_eq] using behind

/-- Where the search found no token, one that begins inside the opening marker begins behind a false
start. -/
theorem falseStart_of_overlap {framed lead body name rest : List Char}
    (missed : m.framed? framed = none) (nonempty : lead ≠ [])
    (overlaps : lead.length < m.opening.length)
    (same : m.opening ++ framed = lead ++ m.opening ++ (body ++ (m.closing ++ rest)))
    (token : m.IsToken body name) : ∃ tail, m.FalseStart lead tail := by
  obtain ⟨tail, begins⟩ : m.opening <+: lead ++ m.opening :=
    List.prefix_of_prefix_length_le (List.prefix_append m.opening framed)
      ⟨body ++ (m.closing ++ rest), same.symm⟩ (by rw [List.length_append]; omega)
  refine ⟨tail, nonempty, overlaps, begins.symm, fun other spelled => ?_⟩
  have behind : framed = tail ++ body ++ (m.closing ++ rest) := by
    rw [← begins, List.append_assoc, List.append_cancel_left_eq] at same
    rw [same, List.append_assoc]
  rw [behind, (spelled.append token).framed?] at missed
  cases missed

/-- **A token that is left begins behind a false start**, in the same gap. -/
theorem falseStart_of_left {text gap : List Char} (hg : gap ∈ (m.tiling text).gaps)
    {before body name after : List Char}
    (split : gap = before ++ m.opening ++ (body ++ (m.closing ++ after)))
    (token : m.IsToken body name) :
    ∃ front lead tail, before = front ++ lead ∧ m.FalseStart lead tail := by
  fun_induction segments m text generalizing gap before with
  | case1 text none =>
    rw [tiling_of_none none, Tiling.gaps, List.map_nil, List.nil_append, List.mem_singleton] at hg
    obtain rfl : gap = text := hg
    exact absurd ⟨before, _, split.symm⟩ (cut?_eq_none_iff.1 none)
  | case2 text front framed found body' name' rest tile ih =>
    rw [tiling_of_token found tile, Tiling.gaps, List.map_cons, List.cons_append,
      List.mem_cons] at hg
    rcases hg with rfl | hg
    · -- The gap ends where the first opening marker of the text begins.
      have whole : text = before ++ m.opening ++ (body ++ (m.closing ++ after) ++
          (m.opening ++ framed)) := by
        rw [append_of_cut? found, List.append_assoc, split, List.append_assoc _ _ (_ ++ framed)]
      have first := length_le_of_cut? found whole
      have sizes := congrArg List.length split
      have := List.length_pos_iff.2 m.wellFormed.opening_ne_nil
      simp only [List.length_append] at sizes
      omega
    · exact ih hg split
  | case3 text front framed found missed ih =>
    obtain ⟨first, others, gaps, prepended⟩ :=
      (m.tiling framed).exists_gaps_prepend (front ++ m.opening)
    rw [tiling_of_no_token found missed, prepended, List.mem_cons] at hg
    rcases hg with rfl | hg
    · obtain ⟨behind, joined⟩ := (m.tiling framed).prefix_written_of_gaps m gaps
      rw [written_tiling] at joined
      have whole : text = before ++ m.opening ++ (body ++ (m.closing ++ (after ++ behind))) := by
        rw [append_of_cut? found, ← joined, ← List.append_assoc, split]
        simp only [List.append_assoc]
      rcases occurrence_cases found whole with ⟨rfl, here⟩ | ⟨lead, start, overlaps, rfl, same⟩ |
        ⟨between, rfl, later⟩
      · -- Here the search looked for a token and would have found this one.
        rw [here, token.framed?] at missed
        cases missed
      · obtain ⟨tail, falseStart⟩ := falseStart_of_overlap missed start overlaps same token
        exact ⟨front, lead, tail, rfl, falseStart⟩
      · -- The token begins behind the opening marker, so the rest of the search left it.
        have inside : first = between ++ m.opening ++ (body ++ (m.closing ++ after)) := by
          rw [← joined] at later
          have same : first ++ behind =
              between ++ m.opening ++ (body ++ (m.closing ++ after)) ++ behind := by
            rw [later]
            simp only [List.append_assoc]
          exact List.append_cancel_right same
        obtain ⟨front', lead, tail, rfl, falseStart⟩ := ih (gaps ▸ List.mem_cons_self) inside
        exact ⟨front ++ m.opening ++ front', lead, tail, by simp only [List.append_assoc],
          falseStart⟩
    · exact ih (gaps ▸ List.mem_cons_of_mem first hg) split

/-! ### Texts -/

/-- A text in which no token stands is left as it is. -/
theorem restore?_of_no_token {text : String}
    (h : ∀ body name, m.IsToken body name →
      ¬ m.opening ++ body ++ m.closing <:+: text.toList) : m.restore? text = none := by
  rw [restore?_eq_none_iff, List.eq_nil_iff_forall_not_mem]
  intro tile mem
  have inside := Tiling.infix_written_of_mem m mem
  rw [written_tiling] at inside
  exact h tile.body tile.name (isToken_of_mem_tiling tile mem) inside

/-- **Restoring changes nothing but tokens.**  For all markers every text is gaps and tokens in turn.
Each token is a framed body of letters, digits and underscores that decodes, and the restored text is
the gaps with the name of each token between them. It is the text itself, not a copy, exactly if there
is no such token between the gaps: always if none stands in the text, and otherwise only if every one
that does begins behind a false start. -/
theorem restored_around_gaps (m : Markers) (text : String) :
    (m.tiling text.toList).written m = text.toList ∧
      (∀ tile ∈ (m.tiling text.toList).tiles, m.IsToken tile.body tile.name) ∧
      (m.restore text).toList = (m.tiling text.toList).restored ∧
      (m.restore? text = none ↔ (m.tiling text.toList).tiles = []) ∧
      ((∀ body name, m.IsToken body name → ¬ m.opening ++ body ++ m.closing <:+: text.toList) →
        m.restore? text = none ∧ m.restore text = text) ∧
      (m.restore? text = none → ∀ before body name after,
        text.toList = before ++ m.opening ++ (body ++ (m.closing ++ after)) →
          m.IsToken body name → ∃ front lead tail, before = front ++ lead ∧ m.FalseStart lead tail) := by
  refine ⟨m.written_tiling _, isToken_of_mem_tiling, ?_, restore?_eq_none_iff, fun none => ?_,
    fun kept before body name after split token => ?_⟩
  · rw [toList_restore, restored_tiling]
  · have kept := restore?_of_no_token none
    exact ⟨kept, by rw [restore, kept, Option.getD_none]⟩
  · -- The text is one gap.
    have whole := m.written_tiling text.toList
    rw [Tiling.written, restore?_eq_none_iff.1 kept, List.flatMap_nil, List.nil_append] at whole
    have only : text.toList ∈ (m.tiling text.toList).gaps := by
      rw [Tiling.gaps, whole]
      exact List.mem_append_right _ List.mem_cons_self
    exact falseStart_of_left only split token

end Markers

end Pseudonym
