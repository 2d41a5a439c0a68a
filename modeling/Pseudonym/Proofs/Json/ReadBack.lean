import Pseudonym.Proofs.Json.Number
import Pseudonym.Proofs.Text

/-!
# Written JSON is read back

A value that is written in some layout is read as the same value, numbers by their digits and texts
by their characters (`Value.ofSymbols?_toText`),

    v.IsWritten  →  Value.ofSymbols? (v.toText layout) = some v.

Texts come back because each character is spelled by one piece, and no piece of them is half of a
surrogate pair. Blanks are only written in front of items, keys and brackets, and there the reader
skips them. Its fuel suffices because every value that is entered takes two symbols.
-/

namespace Pseudonym.Json

open Text

/-! ### Texts -/

theorem spell_unit {u : UInt16} (h : isLeadingSurrogate u = false ∧ isTrailingSurrogate u = false)
    (pieces : List Piece) :
    spell (.unit u :: pieces) = (Char.ofNat u.toNat :: ·) <$> spell pieces := by
  match pieces with
  | [] | .char _ :: _ | .stray :: _ => simp [spell, h]
  | .unit v :: pieces => simp [spell, h]

/-- One piece goes with a named escape, with an escape by four digits and with any other character,
and then the rest is read. -/
theorem readPieces_piece (rest : List Symbol) :
    (∀ {e c : Char}, namedEscape? e = some c → readPieces (some '\\' :: some e :: rest) =
        (readPieces rest).map fun read => (.char c :: read.1, read.2)) ∧
      (∀ u : UInt16, readPieces (some '\\' :: some 'u' :: ((hexWord u).map some ++ rest)) =
        (readPieces rest).map fun read => (.unit u :: read.1, read.2)) ∧
      ∀ {c : Char}, c ≠ '"' → c ≠ '\\' → ¬c.toNat < 0x20 → readPieces (some c :: rest) =
        (readPieces rest).map fun read => (.char c :: read.1, read.2) := by
  refine ⟨fun {e c} h => ?named, fun u => ?digits, fun {c} quote backslash h => ?plain⟩
  case named =>
    have other : e ≠ 'u' := by
      rintro rfl
      cases h
    rw [readPieces.eq_4 e rest fun _ _ _ _ _ _ same => other same, h]
    cases readPieces rest with
    | none => rfl
    | some read => rfl
  case digits =>
    show readPieces (some '\\' :: some 'u' :: some _ :: some _ :: some _ :: some _ :: rest) = _
    rw [readPieces.eq_3, wordOfHex?_hexWord hexValue?_hexDigit]
    cases readPieces rest with
    | none => rfl
    | some read => rfl
  case plain =>
    rw [readPieces.eq_5 c rest quote (fun _ _ _ _ _ _ => backslash) (fun _ _ _ => backslash),
      if_neg (not_or.2 ⟨backslash, h⟩)]
    cases readPieces rest with
    | none => rfl
    | some read => rfl

/-- Each character of a text is spelled by one piece. -/
theorem exists_piece (c : Char) :
    ∃ piece, (∀ rest, readPieces ((escapeChar c).map some ++ rest) =
        (readPieces rest).map fun read => (piece :: read.1, read.2)) ∧
      ∀ pieces, spell (piece :: pieces) = (c :: ·) <$> spell pieces := by
  have named {e : Char} (escape : escapeChar c = ['\\', e]) (h : namedEscape? e = some c) :
      ∃ piece, (∀ rest, readPieces ((escapeChar c).map some ++ rest) =
          (readPieces rest).map fun read => (piece :: read.1, read.2)) ∧
        ∀ pieces, spell (piece :: pieces) = (c :: ·) <$> spell pieces :=
    ⟨.char c, fun rest => by simpa [escape] using (readPieces_piece rest).1 h, fun _ => rfl⟩
  by_cases quote : c = '"'
  · subst quote
    exact named rfl rfl
  by_cases backslash : c = '\\'
  · subst backslash
    exact named rfl rfl
  by_cases lineFeed : c = '\n'
  · subst lineFeed
    exact named rfl rfl
  by_cases carriageReturn : c = '\r'
  · subst carriageReturn
    exact named rfl rfl
  by_cases tab : c = '\t'
  · subst tab
    exact named rfl rfl
  by_cases backspace : c.toNat = 8
  · obtain rfl : Char.ofNat 8 = c := by rw [← backspace, Char.ofNat_toNat]
    exact named rfl rfl
  by_cases formFeed : c.toNat = 12
  · obtain rfl : Char.ofNat 12 = c := by rw [← formFeed, Char.ofNat_toNat]
    exact named rfl rfl
  by_cases control : c.toNat < 0x20
  · have escape : escapeChar c = '\\' :: 'u' :: hexWord (.ofNat c.toNat) := by
      simp only [escapeChar, quote, backslash, lineFeed, carriageReturn, tab, backspace, formFeed,
        control, if_true, if_false]
    have value : (UInt16.ofNat c.toNat).toNat = c.toNat :=
      UInt16.toNat_ofNat_of_lt' (by simp only [UInt16.size]; omega)
    refine ⟨.unit (.ofNat c.toNat), fun rest => ?_, fun pieces => ?_⟩
    · rw [escape]
      exact (readPieces_piece rest).2.1 _
    · rw [spell_unit, value, Char.ofNat_toNat]
      rw [← Bool.not_eq_true, ← Bool.not_eq_true, isLeadingSurrogate_iff, isTrailingSurrogate_iff,
        value]
      omega
  · refine ⟨.char c, fun rest => ?_, fun _ => rfl⟩
    have escape : escapeChar c = [c] := by
      simp only [escapeChar, quote, backslash, lineFeed, carriageReturn, tab, backspace, formFeed,
        control, if_false]
    simpa [escape] using (readPieces_piece rest).2.2 quote backslash control

/-- A text is read as it was written. -/
theorem readText_flatMap_escapeChar (text : List Char) (rest : List Symbol) :
    readText ((text.flatMap escapeChar).map some ++ some '"' :: rest) =
      some (some (String.ofList text), rest) := by
  obtain ⟨pieces, read, spelled⟩ :
      ∃ pieces, readPieces ((text.flatMap escapeChar).map some ++ some '"' :: rest) =
        some (pieces, rest) ∧ spell pieces = some text := by
    induction text with
    | nil => exact ⟨[], rfl, rfl⟩
    | cons c text ih =>
      obtain ⟨pieces, read, spelled⟩ := ih
      obtain ⟨piece, reads, spells⟩ := exists_piece c
      refine ⟨piece :: pieces, ?_, ?_⟩
      · rw [List.flatMap_cons, List.map_append, List.append_assoc, reads, read]
        rfl
      · rw [spells, spelled]
        rfl
  rw [readText, read]
  show some ((spell pieces).map String.ofList, rest) = _
  rw [spelled]
  rfl

/-! ### Blanks -/

theorem skipBlanks_cons {c : Char} (h : isBlank (some c) = false) (rest : List Symbol) :
    skipBlanks (some c :: rest) = some c :: rest :=
  List.dropWhile_cons_of_neg (by simpa using h)

/-- What is written in front of an item is skipped. -/
theorem skipBlanks_lead (layout : Layout) (rest : List Symbol) :
    skipBlanks (layout.lead.map some ++ rest) = skipBlanks rest := by
  refine List.dropWhile_append_of_pos ?_
  cases layout with
  | none => simp [Layout.lead]
  | some level =>
    simp only [Layout.lead, List.map_cons, List.map_replicate, List.forall_mem_cons]
    refine ⟨rfl, fun s hs => ?_⟩
    rw [List.eq_of_mem_replicate hs]
    rfl

theorem readValue_lead (layout : Layout) (fuel : Nat) (rest : List Symbol) :
    readValue fuel (layout.lead.map some ++ rest) = readValue fuel rest := by
  cases fuel with
  | zero => rfl
  | succ fuel => simp only [readValue, skipBlanks_lead]

/-- The blank that some layouts have behind a colon is skipped. -/
theorem readValue_colon (layout : Layout) (fuel : Nat) (rest : List Symbol) :
    readValue fuel (layout.colon.tail.map some ++ rest) = readValue fuel rest := by
  cases layout with
  | none => rfl
  | some level =>
    cases fuel with
    | zero => rfl
    | succ fuel => rw [readValue, readValue]; rfl

/-! ### Values -/

namespace Value

mutual

/-- Whether a value has the shape of a written one: its numbers do and all its texts are
well-formed. -/
def IsWritten : Value → Prop
  | null | bool _ => True
  | number n => n.IsWritten
  | string text => text.isSome = true
  | array items => AreWritten items
  | object members => MembersAreWritten members

def AreWritten : List Value → Prop
  | [] => True
  | v :: vs => v.IsWritten ∧ AreWritten vs

def MembersAreWritten : List (Option String × Value) → Prop
  | [] => True
  | (key, v) :: members => key.isSome = true ∧ v.IsWritten ∧ MembersAreWritten members

end

@[simp] theorem isWritten_null : null.IsWritten := by trivial

@[simp] theorem isWritten_bool (b : Bool) : (bool b).IsWritten := by trivial

@[simp] theorem isWritten_text (s : String) : (text s).IsWritten := rfl

theorem areWritten_iff {vs : List Value} : AreWritten vs ↔ ∀ v ∈ vs, v.IsWritten := by
  induction vs with
  | nil => simp [AreWritten]
  | cons v vs ih => simp [AreWritten, ih]

@[simp] theorem isWritten_array_iff {vs : List Value} :
    (array vs).IsWritten ↔ ∀ v ∈ vs, v.IsWritten := areWritten_iff

theorem membersAreWritten_record {members : List (String × Value)} :
    MembersAreWritten (members.map fun member => (some member.1, member.2)) ↔
      ∀ member ∈ members, member.2.IsWritten := by
  induction members with
  | nil => simp [MembersAreWritten]
  | cons member members ih => simp [MembersAreWritten, ih]

@[simp] theorem isWritten_record_iff {members : List (String × Value)} :
    (record members).IsWritten ↔ ∀ member ∈ members, member.2.IsWritten :=
  membersAreWritten_record

end Value

/-- The characters that a value can start with. -/
def startsValue (c : Char) : Bool :=
  c == '[' || c == '\x7b' || c == '"' || c == 'n' || c == 't' || c == 'f' || c == '-' || c.isDigit

/-- No blank starts a value, and no bracket that closes one. -/
theorem isBlank_of_startsValue {c : Char} (h : startsValue c = true) :
    isBlank (some c) = false ∧ c ≠ ']' ∧ c ≠ '\x7d' := by
  refine ⟨?_, ?_, ?_⟩
  · rw [← Bool.not_eq_true]
    intro blank
    simp only [isBlank, Bool.or_eq_true, beq_iff_eq, Option.some.injEq] at blank
    rcases blank with ((rfl | rfl) | rfl) | rfl
    all_goals exact absurd h (by decide)
  · rintro rfl
    exact absurd h (by decide)
  · rintro rfl
    exact absurd h (by decide)

theorem Value.toText_eq_cons {v : Value} (h : v.IsWritten) (layout : Layout) :
    ∃ c more, v.toText layout = c :: more ∧ startsValue c = true := by
  match v, h with
  | null, _ => exact ⟨_, _, rfl, rfl⟩
  | bool true, _ => exact ⟨_, _, rfl, rfl⟩
  | bool false, _ => exact ⟨_, _, rfl, rfl⟩
  | number n, h =>
    obtain ⟨c, more, text, start⟩ := n.toText_eq_cons h
    refine ⟨c, more, text, ?_⟩
    rcases start with ⟨_, rfl⟩ | ⟨_, digit⟩
    · rfl
    · simp [startsValue, digit]
  | string text, _ => exact ⟨_, _, rfl, rfl⟩
  | array [], _ => exact ⟨_, _, rfl, rfl⟩
  | array (_ :: _), _ => exact ⟨_, _, rfl, rfl⟩
  | object [], _ => exact ⟨_, _, rfl, rfl⟩
  | object (_ :: _), _ => exact ⟨_, _, rfl, rfl⟩

theorem readWord_map (word : List Char) (value : Value) (rest : List Symbol) :
    readWord word value (word.map some ++ rest) = some (value, rest) := by
  rw [readWord, List.isPrefixOf?_eq_some_iff_append_eq.2 rfl]
  rfl

/-- A number is read after the choices of other values failed. -/
theorem readValue_number {n : Number} (h : n.IsWritten) (fuel : Nat) {rest : List Symbol}
    (hr : Stops followsNumber rest) :
    readValue (fuel + 1) (n.toText.map some ++ rest) = some (.number n, rest) := by
  have read := readNumber_toText h hr
  obtain ⟨c, more, text, start⟩ := n.toText_eq_cons h
  have first : c = '-' ∨ c.isDigit = true := start.imp And.right And.right
  have other {d : Char} (hd : d ≠ '-' ∧ d.isDigit = false) : c ≠ d := by
    rintro rfl
    rcases first with sign | digit
    · exact hd.1 sign
    · rw [hd.2] at digit
      cases digit
  have starts : startsValue c = true := by
    rcases first with rfl | digit
    · rfl
    · simp [startsValue, digit]
  rw [text] at read ⊢
  rw [List.map_cons, List.cons_append] at read ⊢
  rw [readValue, skipBlanks_cons (isBlank_of_startsValue starts).1]
  split
  iterate 6
    · next same =>
      exact absurd (Option.some.inj (List.cons.inj same).1) (other (by decide))
  · rw [read]
    rfl

theorem stops_lead {layout : Layout} {rest : List Symbol} (h : Stops followsNumber rest) :
    Stops followsNumber (layout.lead.map some ++ rest) := by
  cases layout with
  | none => exact h
  | some level => exact stops_cons (by decide) _

/-- What stands behind an item is no part of it. -/
theorem stops_itemsText (layout : Layout) (items : List Value) (rest : List Symbol) :
    Stops followsNumber ((Value.itemsText layout items).map some ++ rest) := by
  cases items with
  | nil =>
    rw [Value.itemsText, List.map_append, List.append_assoc]
    exact stops_lead (stops_cons (by decide) _)
  | cons item items => exact stops_cons (by decide) _

theorem stops_membersText (layout : Layout) (members : List (Option String × Value))
    (rest : List Symbol) :
    Stops followsNumber ((Value.membersText layout members).map some ++ rest) := by
  cases members with
  | nil =>
    rw [Value.membersText, List.map_append, List.append_assoc]
    exact stops_lead (stops_cons (by decide) _)
  | cons member members => exact stops_cons (by decide) _

theorem map_quote (text : List Char) (rest : List Symbol) :
    (quote text).map some ++ rest =
      some '"' :: ((text.flatMap escapeChar).map some ++ some '"' :: rest) := by
  simp [quote]

open Value (itemsText membersText memberText)

/-- Whether a text starts a value. -/
def StartsValue (text : List Symbol) : Prop :=
  ∃ c more, text = some c :: more ∧ startsValue c = true

theorem startsValue_toText {v : Value} (h : v.IsWritten) (layout : Layout) (rest : List Symbol) :
    StartsValue ((v.toText layout).map some ++ rest) := by
  obtain ⟨c, more, text, start⟩ := v.toText_eq_cons h layout
  exact ⟨c, more.map some ++ rest, by rw [text]; rfl, start⟩

theorem readValue_bracket (fuel : Nat) (rest : List Symbol) :
    readValue (fuel + 1) (some '[' :: rest) =
      match skipBlanks rest with
      | some ']' :: rest => some (.array [], rest)
      | rest => do
        let (items, rest) ← readItems fuel rest
        return (.array items, rest) := rfl

theorem readValue_brace (fuel : Nat) (rest : List Symbol) :
    readValue (fuel + 1) (some '\x7b' :: rest) =
      match skipBlanks rest with
      | some '\x7d' :: rest => some (.object [], rest)
      | rest => do
        let (members, rest) ← readMembers fuel rest
        return (.object members, rest) := rfl

/-- An array with items is read behind its bracket and the blanks there. -/
theorem readValue_array {text : List Symbol} (ht : StartsValue text) (layout : Layout)
    (fuel : Nat) :
    readValue (fuel + 1) (some '[' :: (layout.lead.map some ++ text)) =
      (readItems fuel text).map fun read => (.array read.1, read.2) := by
  obtain ⟨c, more, rfl, start⟩ := ht
  obtain ⟨blank, bracket, _⟩ := isBlank_of_startsValue start
  rw [readValue_bracket, skipBlanks_lead, skipBlanks_cons blank]
  split
  · next same => exact absurd (Option.some.inj (List.cons.inj same).1) bracket
  · cases readItems fuel (some c :: more) with
    | none => rfl
    | some read => rfl

/-- An object with members is read behind its brace and the blanks there. -/
theorem readValue_object (layout : Layout) (fuel : Nat) (rest : List Symbol) :
    readValue (fuel + 1) (some '\x7b' :: (layout.lead.map some ++ some '"' :: rest)) =
      (readMembers fuel (some '"' :: rest)).map fun read => (.object read.1, read.2) := by
  rw [readValue_brace, skipBlanks_lead, skipBlanks_cons (by decide)]
  show (readMembers fuel (some '"' :: rest) >>= _) = _
  cases readMembers fuel (some '"' :: rest) with
  | none => rfl
  | some read => rfl

theorem readItems_lead (layout : Layout) (fuel : Nat) (rest : List Symbol) :
    readItems fuel (layout.lead.map some ++ rest) = readItems fuel rest := by
  cases fuel with
  | zero => rfl
  | succ fuel => rw [readItems, readItems, readValue_lead]

theorem readMembers_lead (layout : Layout) (fuel : Nat) (rest : List Symbol) :
    readMembers fuel (layout.lead.map some ++ rest) = readMembers fuel rest := by
  cases fuel with
  | zero => rfl
  | succ fuel => rw [readMembers, readMembers, skipBlanks_lead]

theorem readItems_of_readValue {fuel : Nat} {text rest : List Symbol} {item : Value}
    (h : readValue fuel text = some (item, rest)) :
    readItems (fuel + 1) text =
      match skipBlanks rest with
      | some ']' :: rest => some ([item], rest)
      | some ',' :: rest => do
        let (items, rest) ← readItems fuel rest
        return (item :: items, rest)
      | _ => none := by
  rw [readItems, h]
  rfl

/-- Behind the last item the array ends. -/
theorem readItems_last {fuel : Nat} {text rest : List Symbol} {layout : Layout} {item : Value}
    (h : readValue fuel text = some (item, (itemsText layout []).map some ++ rest)) :
    readItems (fuel + 1) text = some ([item], rest) := by
  rw [readItems_of_readValue h, itemsText, List.map_append, List.append_assoc, skipBlanks_lead]
  rfl

/-- Behind any other item the next one follows. -/
theorem readItems_next {fuel : Nat} {text rest : List Symbol} {layout : Layout}
    {item item' : Value} {items : List Value}
    (h : readValue fuel text = some (item, (itemsText layout (item' :: items)).map some ++ rest))
    (hs : readItems fuel ((item'.toText layout.inner ++ itemsText layout items).map some ++ rest) =
      some (item' :: items, rest)) :
    readItems (fuel + 1) text = some (item :: item' :: items, rest) := by
  have next : (itemsText layout (item' :: items)).map some ++ rest =
      some ',' :: (layout.inner.lead.map some ++
        ((item'.toText layout.inner ++ itemsText layout items).map some ++ rest)) := by
    simp [itemsText]
  rw [readItems_of_readValue h, next, skipBlanks_cons (by decide)]
  show (readItems fuel (layout.inner.lead.map some ++
    ((item'.toText layout.inner ++ itemsText layout items).map some ++ rest)) >>= _) = _
  rw [readItems_lead, hs]
  rfl

theorem readMembers_of_readText {fuel : Nat} {text rest : List Symbol} {key : Option String}
    (h : readText text = some (key, some ':' :: rest)) :
    readMembers (fuel + 1) (some '"' :: text) =
      (do
        let (value, rest) ← readValue fuel rest
        match skipBlanks rest with
        | some '\x7d' :: rest => return ([(key, value)], rest)
        | some ',' :: rest =>
          let (members, rest) ← readMembers fuel rest
          return ((key, value) :: members, rest)
        | _ => none) := by
  show (readText text >>= _) = _
  rw [h]
  rfl

/-- A member is read up to the blanks behind it. -/
theorem readMembers_member {fuel : Nat} {rest : List Symbol} {layout : Layout} {key : String}
    {value : Value}
    (h : readValue fuel ((value.toText layout.inner).map some ++ rest) = some (value, rest)) :
    readMembers (fuel + 1) ((memberText layout (some key, value)).map some ++ rest) =
      match skipBlanks rest with
      | some '\x7d' :: rest => some ([(some key, value)], rest)
      | some ',' :: rest => do
        let (members, rest) ← readMembers fuel rest
        return ((some key, value) :: members, rest)
      | _ => none := by
  have text : (memberText layout (some key, value)).map some ++ rest =
      some '"' :: ((key.toList.flatMap escapeChar).map some ++ some '"' ::
        (layout.colon.map some ++ ((value.toText layout.inner).map some ++ rest))) := by
    simp [memberText, quote]
  have colon : layout.colon.map some ++ ((value.toText layout.inner).map some ++ rest) =
      some ':' :: (layout.colon.tail.map some ++
        ((value.toText layout.inner).map some ++ rest)) := by
    cases layout with
    | none => rfl
    | some level => rfl
  have named := readText_flatMap_escapeChar key.toList (some ':' :: (layout.colon.tail.map some ++
    ((value.toText layout.inner).map some ++ rest)))
  rw [String.ofList_toList] at named
  rw [text, colon, readMembers_of_readText named, readValue_colon, h]
  rfl

/-- Behind the last member the object ends. -/
theorem readMembers_last {fuel : Nat} {rest : List Symbol} {layout : Layout} {key : String}
    {value : Value}
    (h : readValue fuel ((value.toText layout.inner).map some ++
      ((membersText layout []).map some ++ rest)) =
        some (value, (membersText layout []).map some ++ rest)) :
    readMembers (fuel + 1) ((memberText layout (some key, value)).map some ++
      ((membersText layout []).map some ++ rest)) = some ([(some key, value)], rest) := by
  rw [readMembers_member h, membersText, List.map_append, List.append_assoc, skipBlanks_lead]
  rfl

/-- Behind any other member the next one follows. -/
theorem readMembers_next {fuel : Nat} {rest : List Symbol} {layout : Layout} {key : String}
    {value : Value} {member : Option String × Value} {members : List (Option String × Value)}
    (h : readValue fuel ((value.toText layout.inner).map some ++
      ((membersText layout (member :: members)).map some ++ rest)) =
        some (value, (membersText layout (member :: members)).map some ++ rest))
    (hs : readMembers fuel ((memberText layout member ++ membersText layout members).map some ++
      rest) = some (member :: members, rest)) :
    readMembers (fuel + 1) ((memberText layout (some key, value)).map some ++
      ((membersText layout (member :: members)).map some ++ rest)) =
        some ((some key, value) :: member :: members, rest) := by
  have next : (membersText layout (member :: members)).map some ++ rest =
      some ',' :: (layout.inner.lead.map some ++
        ((memberText layout member ++ membersText layout members).map some ++ rest)) := by
    simp [membersText]
  rw [readMembers_member h, next, skipBlanks_cons (by decide)]
  show (readMembers fuel (layout.inner.lead.map some ++
    ((memberText layout member ++ membersText layout members).map some ++ rest)) >>= _) = _
  rw [readMembers_lead, hs]
  rfl

mutual

/-- **A value is read as it was written**, if the text behind does not go on with a number. -/
theorem readValue_toText : ∀ (v : Value) (layout : Layout) (fuel : Nat) (rest : List Symbol),
    v.IsWritten → Stops followsNumber rest → 2 * (v.toText layout).length ≤ fuel + 1 →
    readValue fuel ((v.toText layout).map some ++ rest) = some (v, rest)
  | v, layout, 0, rest, h, _, enough => by
    obtain ⟨c, more, text, _⟩ := v.toText_eq_cons h layout
    rw [text, List.length_cons] at enough
    omega
  | .null, layout, fuel + 1, rest, _, _, _ => readWord_map ['u', 'l', 'l'] .null rest
  | .bool true, layout, fuel + 1, rest, _, _, _ => readWord_map ['r', 'u', 'e'] (.bool true) rest
  | .bool false, layout, fuel + 1, rest, _, _, _ =>
    readWord_map ['a', 'l', 's', 'e'] (.bool false) rest
  | .number n, layout, fuel + 1, rest, h, hr, _ => readValue_number h fuel hr
  | .string (some text), layout, fuel + 1, rest, h, _, _ => by
    rw [Value.toText, map_quote]
    show (readText ((text.toList.flatMap escapeChar).map some ++ some '"' :: rest) >>= _) = _
    rw [readText_flatMap_escapeChar, String.ofList_toList]
    rfl
  | .array [], layout, fuel + 1, rest, _, _, _ => rfl
  | .array (item :: items), layout, fuel + 1, rest, h, _, enough => by
    have read := readItems_itemsText item items layout fuel rest h.1 h.2
    have start := startsValue_toText h.1 layout.inner ((itemsText layout items).map some ++ rest)
    simp only [Value.toText, List.length_append, List.length_cons] at enough read
    simp only [Value.toText, List.map_append, List.map_cons, List.cons_append,
      List.append_assoc] at read ⊢
    rw [readValue_array start, read (by omega)]
    rfl
  | .object [], layout, fuel + 1, rest, _, _, _ => rfl
  | .object ((some key, value) :: members), layout, fuel + 1, rest, h, _, enough => by
    have members_fit : 2 * (memberText layout (some key, value) ++
        membersText layout members).length ≤ fuel + 1 := by
      simp only [Value.toText, List.length_append, List.length_cons] at enough ⊢
      omega
    have read := readMembers_membersText key value members layout fuel rest h.2.1 h.2.2 members_fit
    simp only [Value.toText, List.map_append, List.map_cons, List.cons_append, List.append_assoc,
      memberText, map_quote] at read ⊢
    rw [readValue_object, read]
    rfl

theorem readItems_itemsText : ∀ (item : Value) (items : List Value) (layout : Layout) (fuel : Nat)
    (rest : List Symbol), item.IsWritten → Value.AreWritten items →
    2 * (item.toText layout.inner ++ itemsText layout items).length ≤ fuel + 1 →
    readItems fuel ((item.toText layout.inner ++ itemsText layout items).map some ++ rest) =
      some (item :: items, rest)
  | item, items, layout, 0, rest, h, _, enough => by
    obtain ⟨c, more, text, _⟩ := item.toText_eq_cons h layout.inner
    rw [text, List.cons_append, List.length_cons] at enough
    omega
  | item, [], layout, fuel + 1, rest, h, _, enough => by
    have first := readValue_toText item layout.inner fuel ((itemsText layout []).map some ++ rest) h
      (stops_itemsText layout [] rest)
    rw [List.length_append] at enough
    rw [List.map_append, List.append_assoc]
    refine readItems_last (first ?_)
    simp only [itemsText, List.length_append, List.length_singleton] at enough
    omega
  | item, item' :: items, layout, fuel + 1, rest, h, hs, enough => by
    have first := readValue_toText item layout.inner fuel
      ((itemsText layout (item' :: items)).map some ++ rest) h (stops_itemsText layout _ rest)
    have others := readItems_itemsText item' items layout fuel rest hs.1 hs.2
    simp only [itemsText, List.length_append, List.length_cons] at enough others
    rw [List.map_append, List.append_assoc]
    exact readItems_next (first (by omega)) (others (by omega))

theorem readMembers_membersText : ∀ (key : String) (value : Value)
    (members : List (Option String × Value)) (layout : Layout) (fuel : Nat) (rest : List Symbol),
    value.IsWritten → Value.MembersAreWritten members →
    2 * (memberText layout (some key, value) ++ membersText layout members).length ≤ fuel + 1 →
    readMembers fuel ((memberText layout (some key, value) ++
      membersText layout members).map some ++ rest) = some ((some key, value) :: members, rest)
  | key, value, members, layout, 0, rest, _, _, enough => by
    simp only [memberText, quote, List.cons_append, List.length_cons] at enough
    omega
  | key, value, [], layout, fuel + 1, rest, h, _, enough => by
    have first := readValue_toText value layout.inner fuel
      ((membersText layout []).map some ++ rest) h (stops_membersText layout [] rest)
    rw [List.length_append, memberText, List.length_append] at enough
    rw [List.map_append, List.append_assoc]
    refine readMembers_last (first ?_)
    simp only [membersText, List.length_append, List.length_singleton] at enough
    omega
  | key, value, (some key', value') :: members, layout, fuel + 1, rest, h, hs, enough => by
    have first := readValue_toText value layout.inner fuel
      ((membersText layout ((some key', value') :: members)).map some ++ rest) h
      (stops_membersText layout _ rest)
    have others := readMembers_membersText key' value' members layout fuel rest hs.2.1 hs.2.2
    rw [List.length_append] at enough others
    simp only [membersText, List.length_append, List.length_cons] at enough
    rw [List.map_append, List.append_assoc]
    refine readMembers_next (first ?_) (others (by omega))
    simp only [memberText, List.length_append] at enough
    omega

end

/-! ### Documents -/

/-- **A document is read as it was written.** -/
theorem Value.ofSymbols?_toText {v : Value} (h : v.IsWritten) (layout : Layout) :
    Value.ofSymbols? ((v.toText layout).map some) = some v := by
  have read := readValue_toText v layout (2 * (v.toText layout).length + 1) [] h
    (by rintro c ⟨⟩) (by omega)
  rw [List.append_nil] at read
  rw [Value.ofSymbols?, List.length_map, read]
  rfl

/-- The bytes of a text are read as its characters. -/
theorem symbols_toUTF8 (s : String) : symbols s.toUTF8 = s.toList.map some := by
  have valid : s.toUTF8.IsValidUTF8 := s.isValidUTF8
  have read : String.fromUTF8? s.toUTF8 = some s := by
    rw [String.fromUTF8?, dif_pos valid]
    rfl
  rw [symbols, read]

theorem Value.ofBytes?_render {v : Value} (h : v.IsWritten) (layout : Layout) :
    Value.ofBytes? (v.render layout).toUTF8 = some v := by
  rw [Value.ofBytes?, symbols_toUTF8, Value.render, String.toList_ofList]
  exact Value.ofSymbols?_toText h layout

end Pseudonym.Json
