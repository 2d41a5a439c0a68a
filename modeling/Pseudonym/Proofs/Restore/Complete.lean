import Mathlib.Data.Finset.Card
import Pseudonym.Proofs.Restore.Tiling

/-!
# When every token is restored

Whether restoring leaves a token in some text is a matter of the opening marker alone: it does so
exactly if the marker has a false start (`restoresAll_iff`). Without one no token is left, by
`falseStart_of_left`. With one, here is a text in which a token is left:

    lead ++ opening ++ filler ++ closing = opening ++ tail ++ filler ++ closing.

The filler is one letter, over and over, so often that nothing reaches across it. The letter is not a
hexadecimal digit, so it is read apart from `tail` and does not help it to spell something
(`IsToken.of_append_replicate`), and it neither begins nor ends a marker, so that no marker begins in
`tail` or in the filler (`prefix_of_append_replicate`). One of four letters will do (`exists_filler`).

A salted opening marker begins as it ends in one way only, with `veil_` (`border_salted`), so it has a
false start exactly if its salt ends in `veil` (`exists_falseStart_salted_iff`).
-/

namespace Pseudonym

namespace Text

/-- A part that begins in front of a run of a letter that it does not end with ends there as well, if
the run is as long as the part. -/
theorem prefix_of_append_replicate {part front after : List Char} {c : Char} {n : Nat}
    (long : part.length ≤ n) (last : part.getLast? ≠ some c)
    (h : part <+: front ++ (List.replicate n c ++ after)) : part <+: front := by
  by_cases short : part.length ≤ front.length
  · exact List.prefix_of_prefix_length_le h (List.prefix_append _ _) short
  · obtain ⟨inside, rfl⟩ : front <+: part :=
      List.prefix_of_prefix_length_le (List.prefix_append _ _) h (Nat.le_of_not_le short)
    rw [List.length_append] at long short
    have run : inside <+: List.replicate n c :=
      List.prefix_of_prefix_length_le ((List.prefix_append_right_inj front).1 h)
        (List.prefix_append _ _) (by rw [List.length_replicate]; omega)
    rw [(List.prefix_replicate_iff.1 run).2, List.getLast?_append, List.getLast?_replicate,
      if_neg (by omega)] at last
    exact absurd rfl last

/-- A part that does not begin with a letter occurs behind a run of it only. -/
theorem infix_of_infix_replicate {part after : List Char} {c : Char} (first : part.head? ≠ some c)
    (nonempty : part ≠ []) {n : Nat} (h : part <:+: List.replicate n c ++ after) : part <:+: after := by
  induction n with
  | zero => simpa using h
  | succ n ih =>
    rw [List.replicate_succ, List.cons_append, List.infix_cons_iff] at h
    rcases h with begins | h
    · obtain ⟨d, part, rfl⟩ := List.exists_cons_of_ne_nil nonempty
      exact absurd (congrArg some (List.cons_prefix_cons.1 begins).1) first
    · exact ih h

end Text

open Text

namespace Markers

variable {m : Markers}

/-- No token stands in what restoring leaves of a text. -/
def RestoresAll (m : Markers) (text : String) : Prop :=
  ∀ gap ∈ (m.tiling text.toList).gaps, ∀ body name, m.IsToken body name →
    ¬ m.opening ++ body ++ m.closing <:+: gap

theorem restoresAll_of_forall_not (h : ∀ lead tail, ¬ m.FalseStart lead tail) (text : String) :
    m.RestoresAll text := by
  rintro gap hg body name token ⟨before, after, same⟩
  have split : gap = before ++ m.opening ++ (body ++ (m.closing ++ after)) := by
    rw [← same]
    simp only [List.append_assoc]
  obtain ⟨_, lead, tail, _, falseStart⟩ := falseStart_of_left hg split token
  exact h lead tail falseStart

/-! ### Fillers -/

/-- A letter that stands for itself behind any body and with which no marker begins or ends. -/
structure Filler (m : Markers) (c : Char) : Prop where
  letter : c.isAlphanum = true
  noDigit : ∀ u, c ∉ hexWord u
  begins : m.opening.head? ≠ some c
  ends : m.opening.getLast? ≠ some c
  closes : m.closing.getLast? ≠ some c

theorem exists_filler (m : Markers) : ∃ c, m.Filler c := by
  let taken : Finset (Option Char) :=
    {m.opening.head?, m.opening.getLast?, m.closing.getLast?}
  let letters : Finset (Option Char) := {some 'w', some 'x', some 'y', some 'z'}
  have few : taken.card < letters.card := Nat.lt_of_le_of_lt Finset.card_le_three (by decide)
  obtain ⟨choice, chosen, free⟩ := Finset.exists_mem_notMem_of_card_lt_card few
  obtain ⟨c, rfl, letter, noDigit⟩ : ∃ c, choice = some c ∧ c.isAlphanum = true ∧
      ∀ k < 16, hexDigit k ≠ c := by
    simp only [letters, Finset.mem_insert, Finset.mem_singleton] at chosen
    rcases chosen with rfl | rfl | rfl | rfl <;> exact ⟨_, rfl, by decide, by decide⟩
  simp only [taken, Finset.mem_insert, Finset.mem_singleton, not_or] at free
  have other : ∀ k, c ≠ hexDigit (k % 16) := fun k => (noDigit _ (Nat.mod_lt _ (by decide))).symm
  exact ⟨c, letter, fun u => by simp [hexWord, other], Ne.symm free.1, Ne.symm free.2.1,
    Ne.symm free.2.2⟩

theorem spells_nil_iff {us : List UInt16} : m.Spells [] us ↔ us = [] := by
  rw [spells_iff, bodyUnits_nil, Except.ok.injEq, eq_comm]

/-- A letter that is no hexadecimal digit is read apart from what stands before it. -/
theorem Spells.of_append_singleton {front : List Char} {c : Char} {us : List UInt16}
    (h : m.Spells (front ++ [c]) us) (letters : ∀ d ∈ front, isTokenChar d = true)
    (letter : c.isAlphanum = true) (noDigit : ∀ u, c ∉ hexWord u) :
    ∃ vs, m.Spells front vs ∧ us = vs ++ units c := by
  have plain := ne_underscore_of_isAlphanum letter
  have noSlash : '/' ∉ front ++ [c] := by
    rw [List.mem_append, List.mem_singleton, not_or]
    exact ⟨fun h => absurd (letters _ h) (by decide), (ne_slash_of_isAlphanum letter).symm⟩
  generalize whole : front ++ [c] = body at h noSlash
  induction h generalizing front with
  | nil => exact absurd whole (by simp)
  | @letter d rest us underscore slash behind ih =>
    rcases rest.eq_nil_or_concat' with rfl | ⟨rest, e, rfl⟩
    · obtain ⟨rfl, same⟩ := List.append_inj' (whole.trans (List.nil_append [d]).symm) rfl
      obtain rfl := List.singleton_inj.1 same
      obtain rfl := spells_nil_iff.1 behind
      exact ⟨[], .nil, (List.append_nil _).trans (List.nil_append _).symm⟩
    · rw [← List.cons_append] at whole
      obtain ⟨rfl, same⟩ := List.append_inj' whole rfl
      obtain rfl := List.singleton_inj.1 same
      rw [List.mem_cons, not_or] at noSlash
      obtain ⟨vs, spelled, rfl⟩ := ih (fun d hd => letters d (List.mem_cons_of_mem _ hd)) rfl noSlash.2
      exact ⟨units d ++ vs, .letter underscore slash spelled, (List.append_assoc ..).symm⟩
  | @escape i j k l u rest us digits behind ih =>
    rcases rest.eq_nil_or_concat' with rfl | ⟨rest, e, rfl⟩
    · -- The letter is none of the four digits.
      have last : c ∈ '_' :: hexWord u := by
        rw [digits, ← whole]
        exact List.mem_append_right _ List.mem_cons_self
      exact absurd last (List.not_mem_cons_of_ne_of_not_mem plain (noDigit u))
    · simp only [← List.cons_append] at whole
      obtain ⟨rfl, same⟩ := List.append_inj' whole rfl
      obtain rfl := List.singleton_inj.1 same
      obtain ⟨vs, spelled, rfl⟩ := ih (fun d hd => letters d (by simp [hd])) rfl
        (fun h => noSlash (by simp only [List.mem_cons, h, or_true]))
      exact ⟨u :: vs, .escape digits spelled, rfl⟩
  | boundary => exact absurd (by simp [Markers.boundary]) noSlash
  | separatorOpening | separator => exact absurd List.mem_cons_self noSlash

/-- What is a token with a letter behind it that is no hexadecimal digit is one without it. -/
theorem IsToken.of_append_singleton {front name : List Char} {c : Char}
    (h : m.IsToken (front ++ [c]) name) (hc : m.Filler c) : ∃ name', m.IsToken front name' := by
  obtain ⟨letters, spelled⟩ := isToken_iff.1 h
  have letters' : ∀ d ∈ front, isTokenChar d = true := fun d hd =>
    letters d (List.mem_append_left _ hd)
  obtain ⟨us, spelled', same⟩ := spelled.of_append_singleton letters' hc.letter hc.noDigit
  have read := ofUnits?_append_flatMap_units us [c]
  rw [List.flatMap_singleton, ← same, ofUnits?_flatMap_units, eq_comm, Option.map_eq_some_iff] at read
  obtain ⟨name', read, _⟩ := read
  rw [ofUnits?_eq_some_iff.1 read] at spelled'
  exact ⟨name', isToken_iff.2 ⟨letters', spelled'⟩⟩

theorem IsToken.of_append_replicate {front name : List Char} {c : Char} (hc : m.Filler c) {n : Nat}
    (h : m.IsToken (front ++ List.replicate n c) name) : ∃ name', m.IsToken front name' := by
  induction n generalizing name with
  | zero => exact ⟨name, by simpa using h⟩
  | succ n ih =>
    rw [List.replicate_succ', ← List.append_assoc] at h
    obtain ⟨_, shorter⟩ := h.of_append_singleton hc
    exact ih shorter

/-- What the writer writes for letters is the letters. -/
theorem isToken_of_letters {name : List Char} (h : ∀ c ∈ name, c.isAlphanum = true) :
    m.IsToken name name := by
  have same : name.flatMap (m.encodeChar false) = name := by
    rw [List.flatMap_congr (g := fun c => [c]) fun c hc => by rw [encodeChar, if_pos (h c hc)],
      List.flatMap_singleton']
  have written := m.isToken_encode name
  rwa [same] at written

/-! ### A text in which a token is left -/

theorem not_closing_infix_opening (m : Markers) : ¬ m.closing <:+: m.opening := by
  rw [← contains_iff_infix, m.wellFormed.not_closing_in_opening]
  exact Bool.false_ne_true

theorem not_opening_infix_closing (m : Markers) : ¬ m.opening <:+: m.closing := by
  rw [← contains_iff_infix, m.wellFormed.not_opening_in_closing]
  exact Bool.false_ne_true

namespace FalseStart

variable {lead tail : List Char} {c : Char} {n : Nat}

theorem length_eq (h : m.FalseStart lead tail) : tail.length = lead.length := by
  have sizes := congrArg List.length h.begins
  rw [List.length_append, List.length_append] at sizes
  omega

theorem tail_ne_nil (h : m.FalseStart lead tail) : tail ≠ [] := by
  rw [← List.length_pos_iff, h.length_eq, List.length_pos_iff]
  exact h.nonempty

theorem suffix (h : m.FalseStart lead tail) : tail <:+ m.opening :=
  List.suffix_of_suffix_length_le ⟨m.opening, h.begins.symm⟩ ⟨lead, rfl⟩
    (by rw [h.length_eq]; exact Nat.le_of_lt h.overlaps)

/-- What stands behind the false start is no token. -/
theorem framed?_eq_none (h : m.FalseStart lead tail) (hc : m.Filler c) (hn : m.closing.length ≤ n) :
    m.framed? (tail ++ (List.replicate n c ++ m.closing)) = none := by
  rw [Option.eq_none_iff_forall_ne_some]
  rintro ⟨body, name, rest⟩ found
  obtain ⟨whole, token⟩ := isToken_of_framed? found
  have closes : tail ++ (List.replicate n c ++ m.closing) =
      tail ++ List.replicate n c ++ m.closing ++ [] := by
    rw [List.append_nil, List.append_assoc]
  have first := length_le_of_cut? (eq_of_framed? found).1 closes
  rw [List.append_assoc] at whole
  rcases List.append_eq_append_iff.1 whole with ⟨run, rfl, inside⟩ | ⟨inside, rfl, same⟩
  · -- The body ends in the filler, so `tail` spells something.
    have part : run <+: List.replicate n c :=
      List.prefix_of_prefix_length_le ⟨m.closing ++ rest, inside.symm⟩ (List.prefix_append _ _) (by
        rw [List.length_append, List.length_append] at first
        omega)
    rw [(List.prefix_replicate_iff.1 part).2] at token
    obtain ⟨name', spelled⟩ := token.of_append_replicate hc
    exact h.spellsNothing name' spelled
  · -- The body ends in `tail`, so the opening marker holds the closing one.
    have begins : m.closing <+: inside :=
      prefix_of_append_replicate hn hc.closes ⟨rest, same⟩
    have holds : m.closing <:+: m.opening :=
      (begins.isInfix.trans (List.suffix_append body inside).isInfix).trans h.suffix.isInfix
    exact m.not_closing_infix_opening holds

/-- No opening marker begins behind the false start. -/
theorem not_opening_infix (h : m.FalseStart lead tail) (hc : m.Filler c)
    (hn : m.opening.length ≤ n) : ¬ m.opening <:+: tail ++ (List.replicate n c ++ m.closing) := by
  rintro ⟨before, after, whole⟩
  rw [List.append_assoc] at whole
  rcases List.append_eq_append_iff.1 whole with ⟨inside, rfl, same⟩ | ⟨behind, rfl, same⟩
  · have size := (prefix_of_append_replicate hn hc.ends ⟨after, same⟩).length_le
    have sizes := h.length_eq
    have := h.overlaps
    rw [List.length_append] at sizes
    omega
  · have occurs : m.opening <:+: List.replicate n c ++ m.closing :=
      ⟨behind, after, by rw [same, List.append_assoc]⟩
    exact m.not_opening_infix_closing
      (infix_of_infix_replicate hc.begins m.wellFormed.opening_ne_nil occurs)

/-- A false start hides a token. -/
theorem exists_not_restoresAll (h : m.FalseStart lead tail) : ∃ text, ¬ m.RestoresAll text := by
  obtain ⟨c, hc⟩ := m.exists_filler
  let n := m.opening.length + m.closing.length
  let filler := List.replicate n c
  let text := lead ++ (m.opening ++ filler ++ m.closing)
  have other : text = m.opening ++ (tail ++ (filler ++ m.closing)) := by
    simp only [text, ← List.append_assoc, h.begins]
  have alone : m.tiling text = ⟨[], text⟩ := by
    rw [other, tiling_of_no_token (cut?_append_self ..)
      (h.framed?_eq_none hc (Nat.le_add_left _ _)), tiling_of_none
      (cut?_eq_none_iff.2 (h.not_opening_infix hc (Nat.le_add_right _ _)))]
    rfl
  have token : m.IsToken filler filler := isToken_of_letters fun d hd => by
    rw [List.eq_of_mem_replicate hd]
    exact hc.letter
  refine ⟨String.ofList text, fun restores => ?_⟩
  rw [RestoresAll, String.toList_ofList, alone] at restores
  exact restores text (List.mem_singleton_self text) filler filler token (List.suffix_append _ _).isInfix

end FalseStart

/-- **Every token of every text is restored exactly without false starts.** -/
theorem restoresAll_iff : (∀ text, m.RestoresAll text) ↔ ¬ ∃ lead tail, m.FalseStart lead tail := by
  constructor
  · rintro restores ⟨lead, tail, falseStart⟩
    obtain ⟨text, missed⟩ := falseStart.exists_not_restoresAll
    exact missed (restores text)
  · intro none
    exact restoresAll_of_forall_not fun lead tail falseStart => none ⟨lead, tail, falseStart⟩

/-! ### Salted markers -/

/-- What overlaps is both the end and the beginning of the opening marker. -/
theorem FalseStart.exists_border {lead tail : List Char} (h : m.FalseStart lead tail) :
    ∃ border, border ≠ [] ∧ m.opening = lead ++ border ∧ m.opening = border ++ tail := by
  obtain ⟨border, ends⟩ : lead <+: m.opening :=
    List.prefix_of_prefix_length_le ⟨m.opening, h.begins⟩ ⟨tail, rfl⟩ (Nat.le_of_lt h.overlaps)
  refine ⟨border, ?_, ends.symm, ?_⟩
  · rintro rfl
    exact absurd h.overlaps (by rw [← ends, List.append_nil]; exact Nat.lt_irrefl _)
  · have begins := h.begins
    nth_rewrite 2 [← ends] at begins
    rwa [List.append_assoc, List.append_cancel_left_eq] at begins

/-- An underscore behind letters spells nothing. -/
theorem not_spells_underscore {front : List Char} (h : ∀ c ∈ front, c.isAlphanum = true)
    (us : List UInt16) : ¬ m.Spells (front ++ ['_']) us := by
  rw [spells_iff]
  induction front generalizing us with
  | nil =>
    rw [List.nil_append, m.bodyUnits_badEscape (by simp) (by simp)]
    exact nofun
  | cons c front ih =>
    rw [List.forall_mem_cons] at h
    rw [List.cons_append,
      m.bodyUnits_cons (ne_underscore_of_isAlphanum h.1) (ne_slash_of_isAlphanum h.1)]
    intro read
    cases behind : m.bodyUnits (front ++ ['_']) with
    | error fault =>
      rw [behind] at read
      cases read
    | ok vs => exact ih h.2 vs behind

/-- What is both the end and the beginning of a salted opening marker is `veil_`. -/
theorem border_salted {salt lead border tail : List Char} (single : '_' ∉ salt)
    (ends : saltedOpening salt = lead ++ border) (begins : saltedOpening salt = border ++ tail)
    (nonempty : border ≠ []) (more : tail ≠ []) : border = ['v', 'e', 'i', 'l', '_'] := by
  have fresh : '_' ∉ ['v', 'e', 'i', 'l'] := by decide
  obtain ⟨border, last, rfl⟩ := border.eq_nil_or_concat'.resolve_left nonempty
  rw [saltedOpening, ← List.append_assoc lead] at ends
  obtain rfl := List.singleton_inj.1 (List.append_inj' ends rfl).2
  have begins' : ['v', 'e', 'i', 'l'] ++ '_' :: (salt ++ ['_']) = border ++ '_' :: tail := by
    rw [List.append_cons border, ← begins]
    rfl
  by_cases second : '_' ∈ border
  · -- The underscore in front of `tail` would be the last one, but `tail` is not empty.
    obtain ⟨first, border, rfl, alone⟩ := List.eq_append_cons_of_mem second
    have split : ['v', 'e', 'i', 'l'] ++ '_' :: (salt ++ ['_']) =
        first ++ '_' :: (border ++ '_' :: tail) := begins'.trans (List.append_assoc ..)
    have behind := ((append_cons_inj_of_notMem fresh alone).1 split).2
    obtain ⟨tail, last, rfl⟩ := tail.eq_nil_or_concat'.resolve_left more
    rw [← List.cons_append, ← List.append_assoc] at behind
    rw [(List.append_inj' behind rfl).1] at single
    exact absurd (List.mem_append_right border List.mem_cons_self) single
  · rw [← ((append_cons_inj_of_notMem fresh second).1 begins').1]
    rfl

/-- A salted opening marker overlaps another one only with `veil_`. -/
theorem exists_falseStart_salted_iff (front : Salt 7) (back : Salt 5) :
    (∃ lead tail, (salted front back).FalseStart lead tail) ↔ ['v', 'e', 'i', 'l'] <:+ front.1 := by
  have single : '_' ∉ front.1 := fun h => absurd (front.2.2 _ h) (by decide)
  have whole : (salted front back).opening = ['v', 'e', 'i', 'l', '_'] ++ front.1 ++ ['_'] := rfl
  constructor
  · rintro ⟨lead, tail, h⟩
    obtain ⟨border, nonempty, ends, begins⟩ := h.exists_border
    obtain rfl := border_salted single ends begins nonempty h.tail_ne_nil
    have overlap : ['v', 'e', 'i', 'l', '_'] ++ front.1 = lead ++ ['v', 'e', 'i', 'l'] := by
      refine List.append_cancel_right (whole.symm.trans (ends.trans ?_))
      rw [List.append_assoc]
      rfl
    exact List.suffix_of_suffix_length_le ⟨lead, overlap.symm⟩ (List.suffix_append _ _)
      (by rw [front.2.1]; decide)
  · rintro ⟨start, salt⟩
    have size := front.2.1
    rw [← salt, List.length_append] at size
    refine ⟨['v', 'e', 'i', 'l', '_'] ++ start, front.1 ++ ['_'], by simp, ?_, ?_, ?_⟩
    · rw [whole, ← salt]
      simp
    · rw [whole, ← salt]
      simp
    · exact fun name spelled => not_spells_underscore front.2.2 _ (isToken_iff.1 spelled).2

/-- Salted markers restore every token of every text, unless the salt of the opening marker ends in
`veil`. -/
theorem restoresAll_salted_iff (front : Salt 7) (back : Salt 5) :
    (∀ text, (salted front back).RestoresAll text) ↔ ¬ ['v', 'e', 'i', 'l'] <:+ front.1 :=
  restoresAll_iff.trans (not_congr (exists_falseStart_salted_iff front back))

/-- **Restoring is complete up to false starts.**  For all markers a token that stands in what
restoring leaves of a text begins behind a false start, which the search went over. Every token of
every text is restored exactly if the markers have none. -/
theorem every_token_restored_iff (m : Markers) :
    (∀ text : String, ∀ gap ∈ (m.tiling text.toList).gaps, ∀ before body name after,
      gap = before ++ m.opening ++ (body ++ (m.closing ++ after)) → m.IsToken body name →
        ∃ front lead tail, before = front ++ lead ∧ m.FalseStart lead tail) ∧
      ((∀ text, m.RestoresAll text) ↔ ¬ ∃ lead tail, m.FalseStart lead tail) :=
  ⟨fun _ _ hg _ _ _ _ split token => falseStart_of_left hg split token, restoresAll_iff⟩

/-- Salted markers, and a text of which nothing is restored although it ends in a token: the marker
in front of the token leads nowhere and overlaps the marker of the token. -/
theorem not_restoresAll_abcveil :
    ∃ front back, Markers.ofTexts "veil_abcveil_" "__Zk2Pw_mask" = .ok (salted front back) ∧
      let m := salted front back
      let text := "veil_abcveil_abcveil_Main__Zk2Pw_mask"
      text = "veil_abc" ++ "veil_abcveil_Main__Zk2Pw_mask" ∧
        m.decode "veil_abcveil_Main__Zk2Pw_mask" = .ok "Main" ∧
        m.restore? text = none ∧ ¬ m.RestoresAll text := by
  let m := salted ⟨"abcveil".toList, rfl, List.all_eq_true.1 (by decide)⟩
    ⟨"Zk2Pw".toList, rfl, List.all_eq_true.1 (by decide)⟩
  have token : m.IsToken "Main".toList "Main".toList :=
    isToken_of_letters (List.all_eq_true.1 (by decide))
  have start : cut? m.opening "veil_abcveil_abcveil_Main__Zk2Pw_mask".toList =
      some ([], "abcveil_Main__Zk2Pw_mask".toList) := by decide +kernel
  have missed : m.framed? "abcveil_Main__Zk2Pw_mask".toList = none := if_neg (by decide +kernel)
  have alone : m.tiling "veil_abcveil_abcveil_Main__Zk2Pw_mask".toList =
      ⟨[], "veil_abcveil_abcveil_Main__Zk2Pw_mask".toList⟩ := by
    rw [tiling_of_no_token start missed, tiling_of_none (by decide +kernel)]
    decide +kernel
  refine ⟨_, _, toOption_eq_some_iff.1 (by decide +kernel), by decide +kernel, token.decodes, ?_, ?_⟩
  · exact restore?_eq_none_iff.2 (by rw [alone])
  · intro restores
    rw [RestoresAll, alone] at restores
    exact restores _ (List.mem_singleton_self _) _ _ token ⟨"veil_abc".toList, [], by decide +kernel⟩

end Markers

end Pseudonym
