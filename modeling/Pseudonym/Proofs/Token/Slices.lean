import Pseudonym.Proofs.Text.Utf16
import Pseudonym.Proofs.Token
import Pseudonym.Text.Utf8

/-!
# Reading tokens by byte offsets

The library reads a token character by character. A program that holds the token as UTF-8 reads it
by byte offsets instead: it looks at the character in front, decides how many bytes to go on, and
slices there. A slice that would cut a character in two has no result. This file writes that program
down, `slicedDecode?`, with `none` for a slice inside a character, and shows that no such slice is
ever made and that the answer is the same:

    slicedDecode? token = some (decodeText token).

One step goes on by one item, and each step slices behind characters that it has looked at
(`sliceItem?_spec`); the loop takes one step after the other.
-/

namespace Pseudonym

namespace Text

/-! ### Slices -/

/-- The first `n` bytes of a text, unless they end inside a character or behind the text. -/
def takeBytes? : Nat → List Char → Option (List Char)
  | 0, _ => some []
  | _ + 1, [] => none
  | n + 1, c :: rest =>
    if c.utf8Size ≤ n + 1 then (takeBytes? (n + 1 - c.utf8Size) rest).map (c :: ·) else none

/-- A text without its first `n` bytes, unless they end inside a character or behind the text. -/
def dropBytes? : Nat → List Char → Option (List Char)
  | 0, text => some text
  | _ + 1, [] => none
  | n + 1, c :: rest => if c.utf8Size ≤ n + 1 then dropBytes? (n + 1 - c.utf8Size) rest else none

/-- The bytes of a text from one offset to another. -/
def slice? (start stop : Nat) (text : List Char) : Option (List Char) :=
  (takeBytes? stop text).bind (dropBytes? start)

theorem takeBytes?_append (front rest : List Char) :
    takeBytes? (byteLength front) (front ++ rest) = some front := by
  induction front with
  | nil => rw [byteLength_nil, takeBytes?]
  | cons c front ih =>
    obtain ⟨n, size⟩ := Nat.exists_eq_succ_of_ne_zero
      (Nat.ne_of_gt (Nat.add_pos_left c.utf8Size_pos (byteLength front)))
    rw [List.cons_append, byteLength_cons, size, takeBytes?, if_pos (by omega),
      show n + 1 - c.utf8Size = byteLength front by omega, ih, Option.map_some]

theorem dropBytes?_append (front rest : List Char) :
    dropBytes? (byteLength front) (front ++ rest) = some rest := by
  induction front with
  | nil => rw [byteLength_nil, dropBytes?, List.nil_append]
  | cons c front ih =>
    obtain ⟨n, size⟩ := Nat.exists_eq_succ_of_ne_zero
      (Nat.ne_of_gt (Nat.add_pos_left c.utf8Size_pos (byteLength front)))
    rw [List.cons_append, byteLength_cons, size, dropBytes?, if_pos (by omega),
      show n + 1 - c.utf8Size = byteLength front by omega, ih]

theorem slice?_append (before part after : List Char) :
    slice? (byteLength before) (byteLength before + byteLength part) (before ++ part ++ after) =
      some part := by
  rw [slice?, ← byteLength_append, takeBytes?_append]
  exact dropBytes?_append before part

/-- The first bytes of a text are the characters that have so many bytes. -/
theorem exists_of_takeBytes? {n : Nat} {text front : List Char} (h : takeBytes? n text = some front) :
    byteLength front = n ∧ ∃ rest, text = front ++ rest := by
  fun_induction takeBytes? n text generalizing front with
  | case1 text =>
    obtain rfl := Option.some.inj h
    exact ⟨rfl, text, rfl⟩
  | case2 => cases h
  | case3 n c rest fits ih =>
    obtain ⟨front, taken, rfl⟩ := Option.map_eq_some_iff.1 h
    obtain ⟨size, rest, rfl⟩ := ih taken
    exact ⟨by rw [byteLength_cons, size]; omega, rest, rfl⟩
  | case4 => cases h

theorem exists_of_dropBytes? {n : Nat} {text rest : List Char} (h : dropBytes? n text = some rest) :
    ∃ front, byteLength front = n ∧ text = front ++ rest := by
  fun_induction dropBytes? n text with
  | case1 text =>
    obtain rfl := Option.some.inj h
    exact ⟨[], rfl, rfl⟩
  | case2 => cases h
  | case3 n c text fits ih =>
    obtain ⟨front, size, rfl⟩ := ih h
    exact ⟨c :: front, by rw [byteLength_cons, size]; omega, rfl⟩
  | case4 => cases h

theorem length_of_dropBytes? {n : Nat} {text rest : List Char} (h : dropBytes? n text = some rest)
    (pos : 0 < n) : rest.length < text.length := by
  obtain ⟨front, size, rfl⟩ := exists_of_dropBytes? h
  have nonempty : front ≠ [] := by
    rintro rfl
    rw [byteLength_nil] at size
    omega
  have := List.length_pos_iff.2 nonempty
  rw [List.length_append]
  omega

/-- The unit that lower case hexadecimal digits spell, if there is nothing else. -/
def unitOfHex? (digits : List Char) : Option UInt16 :=
  if digits.all fun c => (lowerHexValue? c).isSome then
    some (UInt16.ofNat (digits.foldl (fun n c => n * 16 + (lowerHexValue? c).getD 0) 0))
  else none

theorem utf8Size_of_lowerHexValue? {c : Char} (h : (lowerHexValue? c).isSome) : c.utf8Size = 1 := by
  obtain ⟨n, value⟩ := Option.isSome_iff_exists.1 h
  obtain ⟨small, rfl⟩ := lowerHexValue?_eq_some_iff.1 value
  have all : ∀ n < 16, (hexDigit n).utf8Size = 1 := by decide
  exact all n small

theorem byteLength_of_hex {digits : List Char}
    (h : ∀ c ∈ digits, (lowerHexValue? c).isSome) : byteLength digits = digits.length := by
  induction digits with
  | nil => rfl
  | cons c digits ih =>
    rw [byteLength_cons, utf8Size_of_lowerHexValue? (h c (by simp)),
      ih fun d hd => h d (List.mem_cons_of_mem c hd), List.length_cons, Nat.add_comm]

theorem isSome_of_unitOfHex? {digits : List Char} {u : UInt16} (h : unitOfHex? digits = some u) :
    ∀ c ∈ digits, (lowerHexValue? c).isSome := by
  unfold unitOfHex? at h
  split at h
  · next all => exact List.all_eq_true.1 all
  · cases h

theorem byteLength_of_unitOfHex? {digits : List Char} {u : UInt16}
    (h : unitOfHex? digits = some u) : byteLength digits = digits.length :=
  byteLength_of_hex (isSome_of_unitOfHex? h)

/-- Four bytes that spell a unit are four digits. -/
theorem exists_of_unitOfHex? {digits : List Char} {u : UInt16} (size : byteLength digits = 4)
    (h : unitOfHex? digits = some u) :
    ∃ a b c d, digits = [a, b, c, d] ∧ wordOfHex? lowerHexValue? a b c d = some u := by
  have all := isSome_of_unitOfHex? h
  rw [byteLength_of_hex all] at size
  match digits, size with
  | [a, b, c, d], _ =>
    simp only [List.forall_mem_cons, Option.isSome_iff_exists] at all
    obtain ⟨⟨i, hi⟩, ⟨j, hj⟩, ⟨k, hk⟩, ⟨l, hl⟩, _⟩ := all
    refine ⟨a, b, c, d, rfl, ?_⟩
    simpa [unitOfHex?, wordOfHex?, hi, hj, hk, hl] using h

theorem unitOfHex?_of_wordOfHex? {a b c d : Char} {u : UInt16}
    (h : wordOfHex? lowerHexValue? a b c d = some u) : unitOfHex? [a, b, c, d] = some u := by
  unfold wordOfHex? at h
  split at h
  · next i j k l hi hj hk hl =>
    obtain rfl := Option.some.inj h
    simp [unitOfHex?, hi, hj, hk, hl]
  · cases h

theorem slice?_underscore (rest : List Char) : slice? 1 5 ('_' :: rest) = takeBytes? 4 rest := by
  have size : '_'.utf8Size = 1 := by decide
  have behind : ∀ digits, dropBytes? 1 ('_' :: digits) = some digits := fun digits => by
    rw [dropBytes?, size, if_pos (by decide), dropBytes?]
  rw [slice?, takeBytes?, size, if_pos (by decide)]
  simp only [Option.bind_map, Function.comp_def, behind]
  exact Option.bind_fun_some _

/-- The four bytes behind an underscore spell a unit exactly if four digits stand there. -/
theorem slice?_unitOfHex? {rest : List Char} {u : UInt16} :
    (slice? 1 5 ('_' :: rest)).bind unitOfHex? = some u ↔
      ∃ a b c d after, rest = a :: b :: c :: d :: after ∧
        wordOfHex? lowerHexValue? a b c d = some u := by
  rw [slice?_underscore, Option.bind_eq_some_iff]
  constructor
  · rintro ⟨digits, taken, spelled⟩
    obtain ⟨size, after, rfl⟩ := exists_of_takeBytes? taken
    obtain ⟨a, b, c, d, rfl, word⟩ := exists_of_unitOfHex? size spelled
    exact ⟨a, b, c, d, after, rfl, word⟩
  · rintro ⟨a, b, c, d, after, rfl, word⟩
    have spelled := unitOfHex?_of_wordOfHex? word
    have taken := takeBytes?_append [a, b, c, d] after
    rw [byteLength_of_unitOfHex? spelled] at taken
    exact ⟨[a, b, c, d], taken, spelled⟩

end Text

namespace Markers

open Text

variable (m : Markers)

/-! ### The program -/

/-- One step: the units of the item in front and what is left behind it, or the fault of the item.
It slices one byte behind an underscore or a bare separator, behind a boundary, behind the five
bytes of an escape, or behind a letter. -/
def sliceItem? (first : Char) (text : List Char) :
    Option (Except TokenFault (List UInt16 × List Char)) :=
  if first = '_' then
    (dropBytes? 1 text).bind fun behind =>
      if behind.head? = some '_' then
        if m.boundary <+: text then
          (dropBytes? (byteLength m.boundary) text).map fun rest => .ok ([separatorUnit], rest)
        else some (.error .brokenBoundary)
      else
        match (slice? 1 5 text).bind unitOfHex? with
        | some u => (dropBytes? 5 text).map fun rest => .ok ([u], rest)
        | none => some (.error .badEscape)
  else if first = '/' then
    (dropBytes? 1 text).map fun rest =>
      .ok ([separatorUnit], (m.opening.isPrefixOf? rest).getD rest)
  else
    (dropBytes? first.utf8Size text).map fun rest => .ok (units first, rest)

theorem length_of_sliceItem? {m : Markers} {first : Char} {text after : List Char}
    {us : List UInt16} (h : m.sliceItem? first text = some (.ok (us, after))) :
    after.length < text.length := by
  unfold sliceItem? at h
  split at h
  · obtain ⟨behind, _, h⟩ := Option.bind_eq_some_iff.1 h
    split at h
    · split at h
      · obtain ⟨rest, dropped, same⟩ := Option.map_eq_some_iff.1 h
        obtain ⟨_, rfl⟩ := Prod.mk.inj (Except.ok.inj same)
        refine length_of_dropBytes? dropped ?_
        rw [boundary, byteLength_append, byteLength_cons]
        have := '/'.utf8Size_pos
        omega
      · cases h
    · split at h
      · obtain ⟨rest, dropped, same⟩ := Option.map_eq_some_iff.1 h
        obtain ⟨_, rfl⟩ := Prod.mk.inj (Except.ok.inj same)
        exact length_of_dropBytes? dropped (by decide)
      · cases h
  · split at h
    · obtain ⟨rest, dropped, same⟩ := Option.map_eq_some_iff.1 h
      obtain ⟨_, rfl⟩ := Prod.mk.inj (Except.ok.inj same)
      have shorter := length_of_dropBytes? dropped (by decide)
      cases found : m.opening.isPrefixOf? rest with
      | none => exact shorter
      | some after =>
        have := congrArg List.length (List.append_eq_of_isPrefixOf?_eq_some found)
        rw [List.length_append] at this
        simp only [Option.getD_some]
        omega
    · obtain ⟨rest, dropped, same⟩ := Option.map_eq_some_iff.1 h
      obtain ⟨_, rfl⟩ := Prod.mk.inj (Except.ok.inj same)
      exact length_of_dropBytes? dropped first.utf8Size_pos

/-- The units of a body, item by item. -/
def slicedUnits? (text : List Char) : Option (Except TokenFault (List UInt16)) :=
  match text with
  | [] => some (.ok [])
  | c :: rest =>
    match _h : m.sliceItem? c (c :: rest) with
    | none => none
    | some (.error fault) => some (.error fault)
    | some (.ok (us, after)) => (slicedUnits? after).map fun found => (us ++ ·) <$> found
termination_by text.length
decreasing_by exact length_of_sliceItem? _h

/-- The text that a token spells: the frame is checked, the body is sliced out of it, and its units
are put together. -/
def slicedDecode? (token : List Char) : Option (Except TokenFault (List Char)) :=
  if ¬ m.opening <+: token then some (.error .noOpening)
  else if byteLength token < byteLength m.opening + byteLength m.closing ∨ ¬ m.closing <:+ token then
    some (.error .noClosing)
  else
    (slice? (byteLength m.opening) (byteLength token - byteLength m.closing) token).bind fun body =>
      (m.slicedUnits? body).map fun found => do
        match ofUnits? (← found) with
        | some text => .ok text
        | none => .error .unpairedSurrogate

/-! ### No slice cuts a character -/

theorem sliceItem?_underscore (rest : List Char) :
    m.sliceItem? '_' ('_' :: rest) =
      if rest.head? = some '_' then
        if m.boundary <+: '_' :: rest then
          (dropBytes? (byteLength m.boundary) ('_' :: rest)).map fun rest =>
            .ok ([separatorUnit], rest)
        else some (.error .brokenBoundary)
      else
        match (slice? 1 5 ('_' :: rest)).bind unitOfHex? with
        | some u => (dropBytes? 5 ('_' :: rest)).map fun rest => .ok ([u], rest)
        | none => some (.error .badEscape) := by
  have behind : dropBytes? 1 ('_' :: rest) = some rest := dropBytes?_append ['_'] rest
  rw [sliceItem?, if_pos rfl, behind, Option.bind_some]

/-- **One step slices between characters**, and reads the item that the reader reads. -/
theorem sliceItem?_spec (c : Char) (rest : List Char) :
    ∃ item, m.sliceItem? c (c :: rest) = some item ∧
      m.bodyUnits (c :: rest) = item >>= fun found => (found.1 ++ ·) <$> m.bodyUnits found.2 := by
  by_cases underscore : c = '_'
  · subst c
    rw [sliceItem?_underscore]
    by_cases second : rest.head? = some '_'
    · rw [if_pos second]
      by_cases meets : m.boundary <+: '_' :: rest
      · obtain ⟨after, same⟩ := meets
        rw [if_pos ⟨after, same⟩, ← same, dropBytes?_append]
        exact ⟨_, rfl, m.bodyUnits_boundary after⟩
      · rw [if_neg meets]
        exact ⟨_, rfl, m.bodyUnits_broken second meets⟩
    · rw [if_neg second]
      cases word : (slice? 1 5 ('_' :: rest)).bind unitOfHex? with
      | some u =>
        obtain ⟨a, b, c, d, after, rfl, spelled⟩ := slice?_unitOfHex?.1 word
        have behind := dropBytes?_append ('_' :: [a, b, c, d]) after
        rw [byteLength_cons, byteLength_of_unitOfHex? (unitOfHex?_of_wordOfHex? spelled)] at behind
        refine ⟨.ok ([u], after), congrArg (Option.map _) behind, ?_⟩
        exact m.bodyUnits_escape (fun same => second (congrArg some same)) spelled after
      | none =>
        refine ⟨_, rfl, m.bodyUnits_badEscape second ?_⟩
        rintro a b c d after rfl
        rw [Option.eq_none_iff_forall_ne_some]
        intro u spelled
        exact absurd (word.symm.trans (slice?_unitOfHex?.2 ⟨a, b, c, d, after, rfl, spelled⟩)) (by simp)
  · by_cases slash : c = '/'
    · subst c
      have behind : dropBytes? 1 ('/' :: rest) = some rest := dropBytes?_append ['/'] rest
      rw [sliceItem?, if_neg underscore, if_pos rfl, behind]
      refine ⟨.ok ([separatorUnit], (m.opening.isPrefixOf? rest).getD rest), rfl, ?_⟩
      cases found : m.opening.isPrefixOf? rest with
      | some after =>
        obtain rfl := List.append_eq_of_isPrefixOf?_eq_some found
        exact m.bodyUnits_slash_opening after
      | none => exact m.bodyUnits_slash (isPrefixOf?_eq_none_iff.1 found)
    · have behind := dropBytes?_append [c] rest
      rw [sliceItem?, if_neg underscore, if_neg slash]
      exact ⟨_, congrArg (Option.map _) behind, m.bodyUnits_cons underscore slash rest⟩

theorem slicedUnits?_eq (text : List Char) : m.slicedUnits? text = some (m.bodyUnits text) := by
  fun_induction slicedUnits? m text with
  | case1 => rw [bodyUnits_nil]
  | case2 c rest stuck =>
    obtain ⟨item, sliced, _⟩ := m.sliceItem?_spec c rest
    exact absurd (stuck.symm.trans sliced) (by simp)
  | case3 c rest fault failed =>
    obtain ⟨item, sliced, read⟩ := m.sliceItem?_spec c rest
    obtain rfl := Option.some.inj (failed.symm.trans sliced)
    rw [read]
    rfl
  | case4 c rest us after found ih =>
    obtain ⟨item, sliced, read⟩ := m.sliceItem?_spec c rest
    obtain rfl := Option.some.inj (found.symm.trans sliced)
    rw [read, ih]
    rfl

/-- The body of a token is sliced out between characters. -/
theorem slice?_framed (body : List Char) :
    slice? (byteLength m.opening)
        (byteLength (m.opening ++ body ++ m.closing) - byteLength m.closing)
        (m.opening ++ body ++ m.closing) = some body := by
  have sliced := slice?_append m.opening body m.closing
  rwa [byteLength_append, byteLength_append, Nat.add_sub_cancel]

/-- The frame is checked in bytes as it is in characters. -/
theorem closing_suffix_iff (framed : List Char) :
    m.closing <:+ framed ↔
      byteLength m.opening + byteLength m.closing ≤ byteLength (m.opening ++ framed) ∧
        m.closing <:+ m.opening ++ framed := by
  rw [byteLength_append, Nat.add_le_add_iff_left]
  constructor
  · rintro ⟨body, rfl⟩
    refine ⟨by rw [byteLength_append]; omega, m.opening ++ body, by simp⟩
  · rintro ⟨fits, closes⟩
    rcases List.suffix_or_suffix_of_suffix closes (List.suffix_append m.opening framed) with h | h
    · exact h
    · -- Else the markers would overlap, and the closing one is too long for what is left.
      obtain ⟨front, same⟩ := h
      have sizes := congrArg byteLength same
      rw [byteLength_append] at sizes
      obtain rfl : front = [] := by
        cases front with
        | nil => rfl
        | cons c front =>
          have := c.utf8Size_pos
          rw [byteLength_cons] at sizes
          omega
      rw [← same]
      exact List.suffix_refl framed

/-- **Reading by slices never cuts a character**, and reads what the library reads. -/
theorem slicedDecode?_eq (token : List Char) :
    m.slicedDecode? token = some (m.decodeText token) := by
  cases opened : m.opening.isPrefixOf? token with
  | none =>
    rw [slicedDecode?, if_pos (isPrefixOf?_eq_none_iff.1 opened), decodeText, opened]
  | some framed =>
    obtain rfl := List.append_eq_of_isPrefixOf?_eq_some opened
    rw [slicedDecode?, if_neg (not_not_intro (List.prefix_append m.opening framed)), decodeText,
      opened]
    cases closed : m.closing.isSuffixOf? framed with
    | none =>
      have unclosed : ¬ m.closing <:+ framed := by
        rintro ⟨body, same⟩
        exact absurd (closed.symm.trans (List.isSuffixOf?_eq_some_iff_append_eq.2 same)) (by simp)
      rw [closing_suffix_iff, Decidable.not_and_iff_or_not, Nat.not_le] at unclosed
      rw [if_pos unclosed]
      simp only [closed]
    | some body =>
      obtain rfl := List.append_eq_of_isSuffixOf?_eq_some closed
      obtain ⟨fits, closes⟩ := (m.closing_suffix_iff (body ++ m.closing)).1 ⟨body, rfl⟩
      have framed := m.slice?_framed body
      rw [List.append_assoc] at framed
      rw [if_neg (not_or.2 ⟨Nat.not_lt.2 fits, not_not_intro closes⟩), framed, Option.bind_some,
        slicedUnits?_eq]
      simp only [closed]
      rfl

end Markers

end Pseudonym
