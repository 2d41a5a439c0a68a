import Mathlib.Data.List.Basic
import Pseudonym.Markers.Seeded

/-!
# Markers drawn at random pass the check

Drawn markers are put together from two salts and from fixed texts around them, and no check looks at
them. They pass it nevertheless, and the check gives the same markers (`AcceptedAs`): a pair of texts
passes exactly if it is well-formed (`ofTexts_eq_ok_iff`), and texts around salts are, whatever the
salts.

No more and no less can be drawn. The values that are drawn from a source are the first ones among
those of its words,

    drawList read words length place = some (values, _)   if   values <+: taken read words place count,

and drawing goes on for ever only if there are too few of them (`drawList_eq_none_iff`). Every letter
is the letter of a word, so every pair of salts comes from some source. A keystream starts again after
2^68 words: one that names a letter names it without end, and markers are drawn from it.
-/

namespace Pseudonym.Markers

open Text

/-! ### What passes the check -/

theorem WellFormed.opens {opening closing : List Char} (h : WellFormed opening closing) :
    opens opening = true := by
  simp only [Markers.opens, Bool.and_eq_true, Bool.not_eq_true', List.isEmpty_eq_false_iff,
    List.all_eq_true]
  exact ⟨h.opening_ne_nil, h.opening_chars⟩

theorem WellFormed.closes {opening closing : List Char} (h : WellFormed opening closing) :
    closes closing = true := by
  obtain ⟨tail, ne, split⟩ := h.delimiter_closing
  simp only [Markers.closes, List.isPrefixOf?_eq_some_iff_append_eq.2 split.symm, Bool.and_eq_true,
    Bool.not_eq_true', List.isEmpty_eq_false_iff, List.all_eq_true]
  exact ⟨ne, h.closing_chars⟩

theorem eq_of_texts {m m' : Markers} (ho : m.opening = m'.opening) (hc : m.closing = m'.closing) :
    m = m' := by
  cases m
  cases m'
  simp only at ho hc
  subst ho hc
  rfl

/-- The check accepts well-formed texts and no others, and gives the markers of these texts. -/
theorem ofTexts_eq_ok_iff {opening closing : String} {m : Markers} :
    ofTexts opening closing = .ok m ↔ opening.toList = m.opening ∧ closing.toList = m.closing := by
  constructor
  · intro h
    simp only [ofTexts] at h
    split at h
    · cases h
    split at h
    · cases h
    split at h
    · cases h
    obtain rfl := Except.ok.inj h
    exact ⟨rfl, rfl⟩
  · rintro ⟨ho, hc⟩
    have formed : WellFormed opening.toList closing.toList := by
      rw [ho, hc]
      exact m.wellFormed
    simp only [ofTexts, formed.opens, formed.closes, formed.not_closing_in_opening,
      formed.not_opening_in_closing, Bool.true_eq_false, Bool.false_eq_true, or_self, dite_false]
    exact congrArg Except.ok (eq_of_texts ho hc)

/-- The check accepts the texts of a frame, and gives markers with these texts and this boundary. -/
def Frame.AcceptedAs (frame : Frame) (m : Markers) : Prop :=
  ofTexts (.ofList frame.opening) (.ofList frame.closing) = .ok m ∧ m.frame = frame

theorem frame_acceptedAs (m : Markers) : m.frame.AcceptedAs m := by
  refine ⟨ofTexts_eq_ok_iff.2 ⟨?_, ?_⟩, rfl⟩ <;> exact String.toList_ofList

theorem frame_salted (front : Salt 7) (back : Salt 5) :
    (salted front back).frame = .ofSalts front.1 back.1 := rfl

/-! ### What is drawn -/

section Drawing

variable {α : Type} {read : UInt32 → Option α} {words : Nat → UInt32}
variable {place next count length : Nat} {values : List α}

/-- The first values of the words are drawn. -/
theorem exists_drawList_of_prefix (h : values <+: taken read words place count) :
    ∃ next, drawList read words values.length place = some (values, next) := by
  induction count generalizing place values with
  | zero =>
    obtain rfl := List.prefix_nil.1 h
    exact ⟨place, rfl⟩
  | succ count ih =>
    cases values with
    | nil => exact ⟨place, rfl⟩
    | cons a others =>
      cases found : read (words place) with
      | none =>
        rw [taken_succ_of_none found] at h
        obtain ⟨next, drawn⟩ := ih h
        refine ⟨next, ?_⟩
        rw [← drawn]
        simp only [List.length_cons, drawList, draw_of_none found]
      | some b =>
        rw [taken_succ_of_some found, List.cons_prefix_cons] at h
        obtain ⟨rfl, behind⟩ := h
        obtain ⟨next, drawn⟩ := ih behind
        exact ⟨next, by simp [drawList, draw_of_some found, drawn]⟩

/-- Drawing ends unless the words have too few values, however many words are looked at. -/
theorem drawList_eq_none_iff :
    drawList read words length place = none ↔
      ∀ count, (taken read words place count).length < length := by
  constructor
  · intro endless count
    rcases Nat.lt_or_ge (taken read words place count).length length with few | enough
    · exact few
    · have front := List.take_prefix length (taken read words place count)
      obtain ⟨next, drawn⟩ := exists_drawList_of_prefix front
      rw [List.length_take_of_le enough, endless] at drawn
      cases drawn
  · intro few
    cases drawn : drawList read words length place with
    | none => rfl
    | some result =>
      obtain ⟨size, count, _, only⟩ := taken_of_drawList drawn
      have := few count
      rw [only, size] at this
      exact absurd this (Nat.lt_irrefl _)

/-- To draw values and then some more is to draw all of them. -/
theorem drawList_add (front back : Nat) :
    drawList read words (front + back) place =
      (drawList read words front place).bind fun first =>
        (drawList read words back first.2).map fun second => (first.1 ++ second.1, second.2) := by
  induction front generalizing place with
  | zero => simp [drawList]
  | succ front ih =>
    rw [Nat.succ_add]
    simp only [drawList, ih, Option.bind_eq_bind, Option.pure_def, Option.bind_assoc]
    congr 1
    funext a
    congr 1
    funext first
    cases second : drawList read words back first.2 <;> simp [second]

/-- Looking at the words behind a place is looking at the words of the source that begins there. -/
theorem taken_succ_place :
    taken read words (place + 1) count = taken read (fun i => words (i + 1)) place count := by
  simp only [taken, List.range'_succ_left, List.filterMap_map]
  rfl

/-- Every list of values that words have comes from some source. -/
theorem exists_taken_eq (h : ∀ a ∈ values, ∃ word, read word = some a) :
    ∃ words, taken read words 0 values.length = values := by
  induction values with
  | nil => exact ⟨fun _ => 0, rfl⟩
  | cons a others ih =>
    obtain ⟨word, first⟩ := h a List.mem_cons_self
    obtain ⟨words, rest⟩ := ih fun b hb => h b (List.mem_cons_of_mem a hb)
    refine ⟨fun i => i.casesOn word words, ?_⟩
    rw [List.length_cons, taken_succ_of_some first, taken_succ_place]
    exact congrArg (a :: ·) rest

/-- A value that words have again and again is drawn from every place on. -/
theorem exists_draw (h : ∀ place, ∃ i, place ≤ i ∧ read (words i) ≠ none) :
    ∃ a next, draw read words place = some (a, next) := by
  obtain ⟨i, behind, found⟩ := h place
  obtain ⟨distance, rfl⟩ := Nat.exists_eq_add_of_le behind
  induction distance generalizing place with
  | zero =>
    obtain ⟨a, first⟩ := Option.ne_none_iff_exists'.1 found
    exact ⟨a, place + 1, draw_of_some first⟩
  | succ distance ih =>
    cases here : read (words place) with
    | some a => exact ⟨a, place + 1, draw_of_some here⟩
    | none =>
      rw [draw_of_none here]
      exact ih (Nat.le_add_right _ _) (by rwa [Nat.succ_add_eq_add_succ])

/-- As many values as wanted are drawn from words that have values again and again. -/
theorem drawList_ne_none (h : ∀ place, ∃ i, place ≤ i ∧ read (words i) ≠ none) :
    drawList read words length place ≠ none := by
  induction length generalizing place with
  | zero => simp [drawList]
  | succ length ih =>
    obtain ⟨a, next, drawn⟩ : ∃ a next, draw read words place = some (a, next) := exists_draw h
    have others : drawList read words length next ≠ none := ih
    obtain ⟨result, rest⟩ := Option.ne_none_iff_exists'.1 others
    simp [drawList, drawn, rest]

end Drawing

/-! ### Which frames are drawn -/

/-- Every letter is the letter of a word. -/
theorem exists_letter?_eq {c : Char} (h : c.isAlphanum = true) : ∃ word, letter? word = some c := by
  have large : ∀ n < 26, letter? (.ofNat (n <<< 26)) = some (Char.ofNat (65 + n)) := by decide
  have small : ∀ n < 26, letter? (.ofNat ((26 + n) <<< 26)) = some (Char.ofNat (97 + n)) := by
    decide
  have digit : ∀ n < 10, letter? (.ofNat ((52 + n) <<< 26)) = some (Char.ofNat (48 + n)) := by
    decide
  -- a character whose number lies in a range is the one that a word of that range names
  have named {first size : Nat} {wordOf : Nat → UInt32}
      (range : ∀ n < size, letter? (wordOf n) = some (Char.ofNat (first + n)))
      (lower : first ≤ c.toNat) (upper : c.toNat < first + size) :
      ∃ word, letter? word = some c := by
    have found := range (c.toNat - first) (by omega)
    rw [Nat.add_sub_cancel' lower, Char.ofNat_toNat] at found
    exact ⟨_, found⟩
  have kinds : (c.isUpper || c.isLower || c.isDigit) = true := h
  simp only [Bool.or_eq_true] at kinds
  rcases kinds with (kind | kind) | kind
  · obtain ⟨lower, upper⟩ := of_decide_eq_true kind
    exact named large lower (Nat.lt_succ_of_le upper)
  · obtain ⟨lower, upper⟩ := Bool.and_eq_true_iff.1 kind
    exact named small (of_decide_eq_true lower) (Nat.lt_succ_of_le (of_decide_eq_true upper))
  · obtain ⟨lower, upper⟩ := Bool.and_eq_true_iff.1 kind
    exact named digit (of_decide_eq_true lower) (Nat.lt_succ_of_le (of_decide_eq_true upper))

variable {words : Nat → UInt32} {frame : Frame}

/-- The two salts of a frame are drawn as one list of letters. -/
theorem drawFrame_eq : drawFrame words =
    (drawList letter? words (7 + 5) 0).map fun drawn =>
      .ofSalts (drawn.1.take 7) (drawn.1.drop 7) := by
  rw [drawList_add, drawFrame]
  cases first : drawList letter? words 7 0 with
  | none => rfl
  | some result =>
    have size := (salt_of_drawList first).1
    cases second : drawList letter? words 5 result.2 with
    | none => simp [second]
    | some behind => simp [second, ← size]

/-- A frame is drawn if the first letters of the words are its salts. -/
theorem drawFrame_eq_some_iff : drawFrame words = some frame ↔
    ∃ (front : Salt 7) (back : Salt 5),
      (∃ count, taken letter? words 0 count = front.1 ++ back.1) ∧
        frame = .ofSalts front.1 back.1 := by
  constructor
  · intro h
    rw [drawFrame_eq, Option.map_eq_some_iff] at h
    obtain ⟨⟨letters, next⟩, drawn, rfl⟩ := h
    obtain ⟨size, alphanum⟩ := salt_of_drawList drawn
    obtain ⟨_, count, _, only⟩ := taken_of_drawList drawn
    refine ⟨⟨letters.take 7, by simp [size], fun c hc => alphanum c (List.mem_of_mem_take hc)⟩,
      ⟨letters.drop 7, by simp [size], fun c hc => alphanum c (List.mem_of_mem_drop hc)⟩,
      ⟨count, ?_⟩, rfl⟩
    rw [only]
    exact (List.take_append_drop 7 letters).symm
  · rintro ⟨front, back, ⟨count, only⟩, rfl⟩
    have first : front.1 ++ back.1 <+: taken letter? words 0 count :=
      ⟨[], by rw [only, List.append_nil]⟩
    obtain ⟨next, drawn⟩ := exists_drawList_of_prefix first
    rw [List.length_append, front.2.1, back.2.1] at drawn
    rw [drawFrame_eq, drawn]
    simp [← front.2.1]

/-- Drawing a frame goes on for ever only if the words have too few letters. -/
theorem drawFrame_eq_none_iff :
    drawFrame words = none ↔ ∀ count, (taken letter? words 0 count).length < 12 := by
  rw [drawFrame_eq, Option.map_eq_none_iff, drawList_eq_none_iff]

/-- The frame of every pair of salts is drawn from some source. -/
theorem exists_drawFrame_eq (front : Salt 7) (back : Salt 5) :
    ∃ words, drawFrame words = some (.ofSalts front.1 back.1) := by
  have letters : ∀ c ∈ front.1 ++ back.1, ∃ word, letter? word = some c := by
    intro c hc
    rcases List.mem_append.1 hc with hc | hc
    · exact exists_letter?_eq (front.2.2 c hc)
    · exact exists_letter?_eq (back.2.2 c hc)
  obtain ⟨words, only⟩ := exists_taken_eq letters
  exact ⟨words, drawFrame_eq_some_iff.2 ⟨front, back, ⟨_, only⟩, rfl⟩⟩

/-! ### The keystream of a seed -/

/-- After sixteen words for every counter a keystream starts again. -/
theorem keystream_add_period (key : Vector UInt32 8) (place : Nat) :
    keystream key (place + 16 * UInt64.size) = keystream key place := by
  have block : (place + 16 * UInt64.size) / 16 = place / 16 + UInt64.size :=
    Nat.add_mul_div_left place UInt64.size (by decide)
  have word : (place + 16 * UInt64.size) % 16 = place % 16 := Nat.add_mul_mod_self_left place 16 _
  have counter : UInt64.ofNat (place / 16 + UInt64.size) = UInt64.ofNat (place / 16) := by
    apply UInt64.toNat_inj.1
    rw [UInt64.toNat_ofNat', UInt64.toNat_ofNat']
    exact Nat.add_mod_right _ UInt64.size
  simp only [keystream, block, word, counter]

theorem keystream_add_periods (key : Vector UInt32 8) (place turns : Nat) :
    keystream key (place + turns * (16 * UInt64.size)) = keystream key place := by
  induction turns with
  | zero => rw [Nat.zero_mul, Nat.add_zero]
  | succ turns ih => rw [Nat.succ_mul, ← Nat.add_assoc, keystream_add_period, ih]

/-- What a keystream holds it holds again behind every place. -/
theorem exists_keystream_eq (key : Vector UInt32 8) (i place : Nat) :
    ∃ j, place ≤ j ∧ keystream key j = keystream key i := by
  have far : place ≤ place * (16 * UInt64.size) := Nat.le_mul_of_pos_right place (by decide)
  exact ⟨i + place * (16 * UInt64.size), Nat.le_trans far (Nat.le_add_left _ i),
    keystream_add_periods key i place⟩

/-- A frame is drawn from every keystream that names a letter at all. -/
theorem drawFrame_keystream_eq_none_iff {key : Vector UInt32 8} :
    drawFrame (keystream key) = none ↔ ∀ place, letter? (keystream key place) = none := by
  constructor
  · intro endless i
    by_cases named : letter? (keystream key i) = none
    · exact named
    · have again : ∀ place, ∃ j, place ≤ j ∧ letter? (keystream key j) ≠ none := by
        intro place
        obtain ⟨j, behind, same⟩ := exists_keystream_eq key i place
        exact ⟨j, behind, by rwa [same]⟩
      rw [drawFrame_eq, Option.map_eq_none_iff] at endless
      exact absurd endless (drawList_ne_none again)
  · intro silent
    refine drawFrame_eq_none_iff.2 fun count => ?_
    have nothing : taken letter? (keystream key) 0 count = [] :=
      List.filterMap_eq_nil_iff.2 fun i _ => silent i
    rw [nothing]
    exact Nat.zero_lt_succ _

/-- The frame that is drawn from the keystream of a seed is the one of the markers of the seed. -/
theorem map_frame_seeded? (seed : UInt64) :
    (seeded? seed).map Markers.frame = drawFrame (keystream (seedKey seed)) := by
  unfold seeded?
  split
  · next frame drawn =>
    obtain ⟨front, back, rfl⟩ := exists_of_drawFrame drawn
    exact drawn.symm
  · next endless => exact endless.symm

/-- A seed has markers as soon as one word of its keystream names a letter. -/
theorem seeded?_eq_none_iff {seed : UInt64} :
    seeded? seed = none ↔ ∀ place, letter? (keystream (seedKey seed) place) = none := by
  rw [← drawFrame_keystream_eq_none_iff, ← map_frame_seeded?, Option.map_eq_none_iff]

/-- **Drawn markers pass the check that they skip.** The frame of any two salts is accepted, as the
markers of these salts and with their boundary, and some source yields it. A source yields no other
frames: its first twelve letters are the two salts, and only a source with fewer of them goes on for
ever. The markers of a seed are accepted, and they are what is drawn from its keystream, unless no
word of the whole keystream names a letter. -/
theorem drawn_markers_are_accepted :
    (∀ (front : Salt 7) (back : Salt 5),
      (Frame.ofSalts front.1 back.1).AcceptedAs (salted front back) ∧
        ∃ words, drawFrame words = some (.ofSalts front.1 back.1)) ∧
    (∀ words : Nat → UInt32,
      (∃ (front : Salt 7) (back : Salt 5),
        (∃ count, taken letter? words 0 count = front.1 ++ back.1) ∧
          drawFrame words = some (.ofSalts front.1 back.1)) ∨
      (drawFrame words = none ∧ ∀ count, (taken letter? words 0 count).length < 12)) ∧
    ∀ seed : UInt64,
      (∃ m, seeded? seed = some m ∧ m.frame.AcceptedAs m ∧
        drawFrame (keystream (seedKey seed)) = some m.frame) ∨
      (seeded? seed = none ∧ drawFrame (keystream (seedKey seed)) = none ∧
        ∀ place, letter? (keystream (seedKey seed) place) = none) := by
  refine ⟨fun front back => ⟨?_, exists_drawFrame_eq front back⟩, fun words => ?_, fun seed => ?_⟩
  · rw [← frame_salted]
    exact frame_acceptedAs _
  · cases drawn : drawFrame words with
    | none => exact .inr ⟨rfl, drawFrame_eq_none_iff.1 drawn⟩
    | some frame =>
      obtain ⟨front, back, first, rfl⟩ := drawFrame_eq_some_iff.1 drawn
      exact .inl ⟨front, back, first, rfl⟩
  · have drawn := map_frame_seeded? seed
    cases markers : seeded? seed with
    | none =>
      rw [markers, Option.map_none] at drawn
      exact .inr ⟨rfl, drawn.symm, seeded?_eq_none_iff.1 markers⟩
    | some m =>
      rw [markers, Option.map_some] at drawn
      exact .inl ⟨m, rfl, frame_acceptedAs m, drawn.symm⟩

/-- A seed whose keystream names twelve letters within its first block. -/
example : drawFrame (keystream (seedKey 42)) =
    some (.ofSalts ['I', 'h', 'P', 'i', '3', 'o', 'Z'] ['C', 'n', 'a', 'W', 'v']) := by
  cbv

end Pseudonym.Markers
