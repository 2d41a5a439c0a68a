import Pseudonym.Markers

/-!
# Markers drawn at random

A source of randomness is seen as the words that it yields, one at every place. A value is drawn from
it by rejection: words that stand for none are passed over, and nothing bounds how many they are. A
word stands for a letter by its top six bits, and two of their 64 values name no letter. Seven letters
are the salt of an opening marker, the next five that of the closing one.

The texts that come out are a `Frame`, which is put together without a check. What `draw` and
`drawList` come to is said in one way: they take what `taken` lists, in its order (`taken_of_draw`,
`taken_of_drawList`). Letters are ASCII letters and digits, so a drawn frame is well-formed.
-/

namespace Pseudonym.Markers

/-! ### Drawing values -/

section Drawing

variable {α : Type} (read : UInt32 → Option α) (words : Nat → UInt32)

/-- The value of the first word from a place on that has one, and the place behind that word. The
search does not end where no word has a value. -/
def draw (place : Nat) : Option (α × Nat) :=
  match read (words place) with
  | some a => some (a, place + 1)
  | none => by
    apply draw
    exact place + 1
partial_fixpoint

/-- Draws several values, one behind the other. -/
def drawList : (length : Nat) → (place : Nat) → Option (List α × Nat)
  | 0, place => some ([], place)
  | length + 1, place => do
    let (a, place) ← draw read words place
    let (others, place) ← drawList length place
    return (a :: others, place)

/-- The values of `count` words from a place on. -/
def taken (place count : Nat) : List α :=
  (List.range' place count).filterMap fun i => read (words i)

variable {read words} {place next count length : Nat} {a : α} {values : List α}

theorem taken_succ_of_some (h : read (words place) = some a) :
    taken read words place (count + 1) = a :: taken read words (place + 1) count := by
  simp [taken, List.range'_succ, h]

theorem taken_succ_of_none (h : read (words place) = none) :
    taken read words place (count + 1) = taken read words (place + 1) count := by
  simp [taken, List.range'_succ, h]

theorem taken_add (place front back : Nat) :
    taken read words place (front + back) =
      taken read words place front ++ taken read words (place + front) back := by
  simp only [taken, ← List.filterMap_append]
  rw [List.range'_append_1]

theorem exists_of_mem_taken (h : a ∈ taken read words place count) :
    ∃ i, read (words i) = some a := by
  obtain ⟨i, _, hi⟩ := List.mem_filterMap.1 h
  exact ⟨i, hi⟩

theorem draw_of_some (h : read (words place) = some a) :
    draw read words place = some (a, place + 1) := by
  rw [draw, h]

theorem draw_of_none (h : read (words place) = none) :
    draw read words place = draw read words (place + 1) := by
  rw [draw, h]

/-- A drawn value is the only one of the words that were looked at. -/
theorem taken_of_draw (h : draw read words place = some (a, next)) :
    ∃ count, next = place + count ∧ taken read words place count = [a] := by
  refine draw.partial_correctness read words
    (fun place drawn => ∃ count, drawn.2 = place + count ∧
      taken read words place count = [drawn.1]) ?_ place (a, next) h
  intro draw ih place drawn h
  split at h
  · next a found =>
    obtain rfl := Option.some.inj h
    exact ⟨1, rfl, by rw [taken_succ_of_some found]; rfl⟩
  · next missing =>
    obtain ⟨count, behind, only⟩ := ih (place + 1) drawn h
    exact ⟨count + 1, by omega, by rw [taken_succ_of_none missing, only]⟩

/-- Drawn values are those of the words that were looked at, in their order. -/
theorem taken_of_drawList (h : drawList read words length place = some (values, next)) :
    values.length = length ∧
      ∃ count, next = place + count ∧ taken read words place count = values := by
  induction length generalizing place values with
  | zero =>
    obtain ⟨rfl, rfl⟩ := Prod.mk.inj (Option.some.inj h)
    exact ⟨rfl, 0, rfl, rfl⟩
  | succ length ih =>
    simp only [drawList, Option.bind_eq_bind, Option.bind_eq_some_iff, Option.pure_def,
      Option.some.injEq, Prod.mk.injEq, Prod.exists] at h
    obtain ⟨a, middle, first, others, last, rest, rfl, rfl⟩ := h
    obtain ⟨front, rfl, only⟩ := taken_of_draw first
    obtain ⟨rfl, back, rfl, behind⟩ := ih rest
    exact ⟨rfl, front + back, by omega, by rw [taken_add, only, behind, List.singleton_append]⟩

end Drawing

/-! ### Drawing letters -/

/-- The letter of a word, by the top six bits of the word: capitals, small letters, digits; two of
the 64 values have none. -/
def letter? (word : UInt32) : Option Char :=
  let n := (word >>> 26).toNat
  if n < 26 then some (Char.ofNat (65 + n))
  else if n < 52 then some (Char.ofNat (71 + n))
  else if n < 62 then some (Char.ofNat (n - 4))
  else none

theorem isAlphanum_of_letter? {word : UInt32} {c : Char} (h : letter? word = some c) :
    c.isAlphanum = true := by
  have small : ∀ n < 26, (Char.ofNat (65 + n)).isAlphanum = true := by decide
  have large : ∀ n < 52, 26 ≤ n → (Char.ofNat (71 + n)).isAlphanum = true := by decide
  have digit : ∀ n < 62, 52 ≤ n → (Char.ofNat (n - 4)).isAlphanum = true := by decide
  simp only [letter?] at h
  generalize (word >>> 26).toNat = n at h
  split at h
  · cases h
    exact small n (by omega)
  · split at h
    · cases h
      exact large n (by omega) (by omega)
    · split at h
      · cases h
        exact digit n (by omega) (by omega)
      · simp at h

variable {words : Nat → UInt32} {length place next : Nat} {letters : List Char}

/-- Drawn letters are a salt. -/
theorem salt_of_drawList (h : drawList letter? words length place = some (letters, next)) :
    letters.length = length ∧ ∀ c ∈ letters, c.isAlphanum = true := by
  obtain ⟨size, count, _, rfl⟩ := taken_of_drawList h
  refine ⟨size, fun c hc => ?_⟩
  obtain ⟨i, hi⟩ := exists_of_mem_taken hc
  exact isAlphanum_of_letter? hi

/-! ### Drawing frames -/

/-- The texts that frame tokens, as they come, and the text that stands for a package separator. -/
structure Frame where
  opening : List Char
  closing : List Char
  boundary : List Char
deriving DecidableEq

/-- The texts of two salts. -/
def Frame.ofSalts (front back : List Char) : Frame where
  opening := saltedOpening front
  closing := saltedClosing back
  boundary := saltedClosing back ++ '/' :: saltedOpening front

/-- The texts of markers. -/
def frame (m : Markers) : Frame := ⟨m.opening, m.closing, m.boundary⟩

/-- Draws the two salts of a frame. -/
def drawFrame (words : Nat → UInt32) : Option Frame := do
  let (front, place) ← drawList letter? words 7 0
  let (back, _) ← drawList letter? words 5 place
  return .ofSalts front back

/-- Drawn frames are those of salts. -/
theorem exists_of_drawFrame {frame : Frame} (h : drawFrame words = some frame) :
    ∃ (front : Salt 7) (back : Salt 5), frame = .ofSalts front.1 back.1 := by
  simp only [drawFrame, Option.bind_eq_bind, Option.bind_eq_some_iff, Option.pure_def,
    Option.some.injEq, Prod.exists] at h
  obtain ⟨front, _, drawnFront, back, _, drawnBack, rfl⟩ := h
  exact ⟨⟨front, salt_of_drawList drawnFront⟩, ⟨back, salt_of_drawList drawnBack⟩, rfl⟩

theorem wellFormed_of_drawFrame {frame : Frame} (h : drawFrame words = some frame) :
    WellFormed frame.opening frame.closing := by
  obtain ⟨front, back, rfl⟩ := exists_of_drawFrame h
  exact wellFormed_salted front back

end Pseudonym.Markers
