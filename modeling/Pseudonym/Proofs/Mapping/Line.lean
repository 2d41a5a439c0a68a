import Mathlib.Data.List.TakeWhile
import Pseudonym.Mapping.Listing
import Pseudonym.Proofs.Descriptor.ReadBack
import Pseudonym.Proofs.Text
import Pseudonym.Proofs.Text.Words

/-!
# What a line of a mapping file gives

`Spells ws e` lists the four ways in which words spell an entry, and a line gives what the words in
front of its comment spell (`Gives`). This is what the reader finds, no more and no less,

    ofLine line = .ok (some e)  ↔  Gives line e.

Some line gives an entry exactly if the entry is representable: its texts are words, no column is
taken for a comment, a point or a parenthesis stands only where it divides, and its descriptor is
one. The line that is written for such an entry gives it (`gives_of_representable`), and whatever a
line gives is representable (`representable_of_gives`).
-/

namespace Pseudonym

open Text Descriptor

namespace MappingEntry

/-- The entries that words spell. -/
inductive Spells : List (List Char) → MappingEntry → Prop
  | class (old new : String) (noPoint : '.' ∉ old.toList) (noParenthesis : '(' ∉ old.toList) :
    Spells [old.toList, new.toList] (.class old new)
  | anyField (owner name new : String) (owner_ne : owner ≠ "") (name_ne : name ≠ "")
      (noPoint : '.' ∉ name.toList) (noParenthesis : '(' ∉ owner.toList ++ name.toList) :
    Spells [owner.toList ++ '.' :: name.toList, new.toList] (.field ⟨owner, name, none⟩ new)
  | field (owner name descriptor new : String) {t : TypeDescriptor} (owner_ne : owner ≠ "")
      (name_ne : name ≠ "") (noPoint : '.' ∉ name.toList)
      (parsed : TypeDescriptor.parse descriptor = .ok t) :
    Spells [owner.toList ++ '.' :: name.toList, descriptor.toList, new.toList]
      (.field ⟨owner, name, some descriptor⟩ new)
  | method (owner name descriptor new : String) {t : MethodDescriptor} (owner_ne : owner ≠ "")
      (name_ne : name ≠ "") (noPoint : '.' ∉ name.toList)
      (noParenthesis : '(' ∉ owner.toList ++ name.toList)
      (parsed : MethodDescriptor.parse descriptor = .ok t) :
    Spells [owner.toList ++ '.' :: (name.toList ++ descriptor.toList), new.toList]
      (.method ⟨owner, name, descriptor⟩ new)

/-- Entries have two or three columns. -/
theorem Spells.columns {ws : List (List Char)} {e : MappingEntry} (h : Spells ws e) :
    (∃ target new, ws = [target, new]) ∨
      ∃ target descriptor new, ws = [target, descriptor, new] := by
  cases h with
  | «class» | anyField | method => exact Or.inl ⟨_, _, rfl⟩
  | field => exact Or.inr ⟨_, _, _, rfl⟩

/-- A line gives what the words in front of its comment spell. -/
def Gives (line : List Char) (e : MappingEntry) : Prop := Spells (wordsOfLine line) e

/-! ### Reading a line -/

theorem onLine_eq_ok_iff {α : Type} {descriptor : List Char} {found : Except DescriptorFault α}
    {a : α} : onLine descriptor found = .ok a ↔ found = .ok a := by
  cases found with
  | error fault => simp [onLine]
  | ok b => simp [onLine]

/-- A member is divided at its last point. -/
theorem memberOfText_eq_ok_iff {member : List Char} {owner name : String} :
    memberOfText member = .ok (owner, name) ↔
      member = owner.toList ++ '.' :: name.toList ∧ owner ≠ "" ∧ name ≠ "" ∧
        '.' ∉ name.toList := by
  rw [memberOfText]
  constructor
  · intro h
    split at h
    · next before after cut =>
      obtain ⟨rfl, noPoint⟩ := cutLast?_eq_some_iff.1 cut
      split at h
      · cases h
      · next full =>
        simp only [Bool.or_eq_true, List.isEmpty_iff, not_or] at full
        obtain ⟨rfl, rfl⟩ := Prod.mk.inj (Except.ok.inj h)
        simpa using ⟨full.1, full.2, noPoint⟩
    · cases h
  · rintro ⟨rfl, owner_ne, name_ne, noPoint⟩
    rw [cutLast?_eq_some_iff.2 ⟨rfl, noPoint⟩]
    simp [owner_ne, name_ne]

/-- The descriptor of a method opens with a parenthesis. -/
theorem head_of_parse {d : String} {t : MethodDescriptor} (h : MethodDescriptor.parse d = .ok t) :
    ∃ rest, d.toList = '(' :: rest := by
  rw [toText_of_scanMethod (MethodDescriptor.parse_eq_ok_iff.1 h).2]
  exact ⟨_, rfl⟩

section

variable {c : Char} {front : List Char} (h : c ∉ front) (rest : List Char)

include h

theorem takeWhile_ne_append_cons : (front ++ c :: rest).takeWhile (· != c) = front := by
  have inside : ∀ d ∈ front, (d != c) = true := fun d hd => bne_iff_ne.2 fun same => h (same ▸ hd)
  rw [List.takeWhile_append_of_pos inside, List.takeWhile_cons_of_neg (by simp), List.append_nil]

theorem dropWhile_ne_append_cons : (front ++ c :: rest).dropWhile (· != c) = c :: rest := by
  have inside : ∀ d ∈ front, (d != c) = true := fun d hd => bne_iff_ne.2 fun same => h (same ▸ hd)
  rw [List.dropWhile_append_of_pos inside, List.dropWhile_cons_of_neg (by simp)]

end

/-- A target with a parenthesis is a method: the descriptor starts at the first one. -/
theorem ofPair_parenthesis {front rest new : List Char} (h : '(' ∉ front) {e : MappingEntry} :
    ofPair (front ++ '(' :: rest) new = .ok e ↔
      ∃ t owner name, MethodDescriptor.ofText ('(' :: rest) = .ok t ∧
        memberOfText front = .ok (owner, name) ∧
          e = .method ⟨owner, name, String.ofList ('(' :: rest)⟩ (String.ofList new) := by
  rw [ofPair, if_pos (by simp), takeWhile_ne_append_cons h, dropWhile_ne_append_cons h]
  constructor
  · intro read
    obtain ⟨t, parsed, read⟩ := bind_eq_ok_iff.1 read
    obtain ⟨⟨owner, name⟩, member, read⟩ := bind_eq_ok_iff.1 read
    exact ⟨t, owner, name, onLine_eq_ok_iff.1 parsed, member, (pure_eq_ok_iff.1 read).symm⟩
  · rintro ⟨t, owner, name, parsed, member, rfl⟩
    dsimp only
    rw [onLine_eq_ok_iff.2 parsed, member]
    rfl

theorem ofPair_eq_ok_iff {target new : List Char} {e : MappingEntry} :
    ofPair target new = .ok e ↔ Spells [target, new] e := by
  constructor
  · intro h
    by_cases parenthesis : '(' ∈ target
    · obtain ⟨front, rest, rfl, outside⟩ := List.eq_append_cons_of_mem parenthesis
      obtain ⟨t, owner, name, parsed, member, rfl⟩ := (ofPair_parenthesis outside).1 h
      obtain ⟨rfl, owner_ne, name_ne, noPoint⟩ := memberOfText_eq_ok_iff.1 member
      have descriptor : MethodDescriptor.parse (String.ofList ('(' :: rest)) = .ok t :=
        located_eq_ok_iff.2 (by rw [String.toList_ofList]; exact parsed)
      have spelled := Spells.method owner name _ (String.ofList new) owner_ne name_ne noPoint
        (by simpa using outside) descriptor
      simpa using spelled
    · rw [ofPair, if_neg (by simpa using parenthesis)] at h
      split at h
      · obtain ⟨⟨owner, name⟩, member, read⟩ := bind_eq_ok_iff.1 h
        obtain rfl := pure_eq_ok_iff.1 read
        obtain ⟨rfl, owner_ne, name_ne, noPoint⟩ := memberOfText_eq_ok_iff.1 member
        have spelled := Spells.anyField owner name (String.ofList new) owner_ne name_ne noPoint
          (by simpa using parenthesis)
        simpa using spelled
      · next point =>
        obtain rfl := pure_eq_ok_iff.1 h
        have spelled := Spells.class (String.ofList target) (String.ofList new)
          (by simpa using point) (by simpa using parenthesis)
        simpa using spelled
  · intro h
    cases h with
    | «class» old new noPoint noParenthesis =>
      rw [ofPair, if_neg (by simpa using noParenthesis), if_neg (by simpa using noPoint)]
      simp [pure, Except.pure]
    | anyField owner name new owner_ne name_ne noPoint noParenthesis =>
      have member := memberOfText_eq_ok_iff.2 ⟨rfl, owner_ne, name_ne, noPoint⟩
      rw [ofPair, if_neg (by simpa using noParenthesis), if_pos (by simp), member]
      simp [bind, Except.bind, pure, Except.pure]
    | @method owner name descriptor new t owner_ne name_ne noPoint noParenthesis parsed =>
      obtain ⟨rest, opens⟩ := head_of_parse parsed
      have member := memberOfText_eq_ok_iff.2 ⟨rfl, owner_ne, name_ne, noPoint⟩
      have outside : '(' ∉ owner.toList ++ '.' :: name.toList := by simpa using noParenthesis
      have whole : owner.toList ++ '.' :: (name.toList ++ descriptor.toList) =
          (owner.toList ++ '.' :: name.toList) ++ '(' :: rest := by simp [opens]
      rw [whole, ofPair_parenthesis outside]
      refine ⟨t, owner, name, ?_, member, ?_⟩
      · rw [← opens]
        exact located_eq_ok_iff.1 parsed
      · rw [← opens, String.ofList_toList, String.ofList_toList]

theorem ofTriple_eq_ok_iff {target descriptor new : List Char} {e : MappingEntry} :
    ofTriple target descriptor new = .ok e ↔ Spells [target, descriptor, new] e := by
  constructor
  · intro h
    obtain ⟨t, parsed, read⟩ := bind_eq_ok_iff.1 h
    obtain ⟨⟨owner, name⟩, member, read⟩ := bind_eq_ok_iff.1 read
    obtain rfl := pure_eq_ok_iff.1 read
    obtain ⟨rfl, owner_ne, name_ne, noPoint⟩ := memberOfText_eq_ok_iff.1 member
    have descriptor' : TypeDescriptor.parse (String.ofList descriptor) = .ok t :=
      located_eq_ok_iff.2 (by rw [String.toList_ofList]; exact onLine_eq_ok_iff.1 parsed)
    have spelled := Spells.field owner name _ (String.ofList new) owner_ne name_ne noPoint
      descriptor'
    simpa using spelled
  · intro h
    cases h with
    | field owner name descriptor new owner_ne name_ne noPoint parsed =>
      have member := memberOfText_eq_ok_iff.2 ⟨rfl, owner_ne, name_ne, noPoint⟩
      rw [ofTriple, onLine_eq_ok_iff.2 (located_eq_ok_iff.1 parsed), member]
      simp [bind, Except.bind, pure, Except.pure]

/-- **A line is read as the entry that it gives.** -/
theorem ofLine_eq_some_iff {line : List Char} {e : MappingEntry} :
    ofLine line = .ok (some e) ↔ Gives line e := by
  rw [ofLine, Gives]
  constructor
  · intro h
    split at h
    · cases h
    · next two =>
      obtain ⟨e', read, same⟩ := map_eq_ok_iff.1 h
      rw [two, ← Option.some.inj same]
      exact ofPair_eq_ok_iff.1 read
    · next three =>
      obtain ⟨e', read, same⟩ := map_eq_ok_iff.1 h
      rw [three, ← Option.some.inj same]
      exact ofTriple_eq_ok_iff.1 read
    · cases h
  · intro h
    rcases h.columns with ⟨target, new, two⟩ | ⟨target, descriptor, new, three⟩
    · rw [two] at h ⊢
      exact map_eq_ok_iff.2 ⟨e, ofPair_eq_ok_iff.2 h, rfl⟩
    · rw [three] at h ⊢
      exact map_eq_ok_iff.2 ⟨e, ofTriple_eq_ok_iff.2 h, rfl⟩

theorem Gives.unique {line : List Char} {e e' : MappingEntry} (h : Gives line e)
    (h' : Gives line e') : e = e' :=
  Option.some.inj (Except.ok.inj ((ofLine_eq_some_iff.2 h).symm.trans (ofLine_eq_some_iff.2 h')))

/-! ### Words in front of a comment -/

/-- A word that is not taken for a comment. -/
structure IsShown (word : List Char) : Prop extends IsWord word where
  noComment : word.head? ≠ some '#'

instance (word : List Char) : Decidable (IsShown word) :=
  decidable_of_iff (IsWord word ∧ word.head? ≠ some '#')
    ⟨fun h => ⟨h.1, h.2⟩, fun h => ⟨h.toIsWord, h.noComment⟩⟩

variable {word front back line rest : List Char}

theorem IsShown.left (h : IsShown (front ++ back)) (hf : front ≠ []) : IsShown front where
  ne_nil := hf
  not_blank c hc := h.not_blank c (List.mem_append_left _ hc)
  noComment head := h.noComment (List.head?_append_of_ne_nil _ hf ▸ head)

theorem IsShown.right (h : IsShown (front ++ back)) (hb : back ≠ []) : IsWord back where
  ne_nil := hb
  not_blank c hc := h.not_blank c (List.mem_append_right _ hc)

theorem IsShown.append (hf : IsShown front) (hb : IsWord back) : IsShown (front ++ back) where
  ne_nil := List.append_ne_nil_of_left_ne_nil hf.ne_nil _
  not_blank := List.forall_mem_append.2 ⟨hf.not_blank, hb.not_blank⟩
  noComment := List.head?_append_of_ne_nil _ hf.ne_nil ▸ hf.noComment

theorem IsShown.member {owner name : String} (h : IsShown (owner.toList ++ '.' :: name.toList))
    (owner_ne : owner ≠ "") (name_ne : name ≠ "") :
    IsShown owner.toList ∧ IsWord name.toList := by
  have split : owner.toList ++ '.' :: name.toList = (owner.toList ++ ['.']) ++ name.toList := by
    simp
  exact ⟨h.left (by simpa using owner_ne), (split ▸ h).right (by simpa using name_ne)⟩

theorem isShown_of_mem_wordsOfLine (h : word ∈ wordsOfLine line) : IsShown word where
  toIsWord := isWord_of_mem_words ((List.takeWhile_prefix _).subset h)
  noComment := by simpa using List.mem_takeWhile_imp h

theorem wordsOfLine_of_isShown (h : IsShown word) : wordsOfLine word = [word] := by
  rw [wordsOfLine, h.words_eq, List.takeWhile_cons_of_pos (by simpa using h.noComment)]
  rfl

theorem wordsOfLine_append_cons (h : IsShown word) :
    wordsOfLine (word ++ ' ' :: rest) = word :: wordsOfLine rest := by
  rw [wordsOfLine, words_append_cons (by decide), h.words_eq, List.singleton_append,
    List.takeWhile_cons_of_pos (by simpa using h.noComment)]
  rfl

/-- Words that are written with blanks between them are read as these words. -/
theorem wordsOfLine_intercalate {ws : List (List Char)} (h : ∀ word ∈ ws, IsShown word) :
    wordsOfLine ([' '].intercalate ws) = ws := by
  induction ws with
  | nil => rfl
  | cons word ws ih =>
    rw [List.forall_mem_cons] at h
    cases ws with
    | nil => rw [List.intercalate_singleton, wordsOfLine_of_isShown h.1]
    | cons next ws =>
      rw [List.intercalate_cons_cons, List.append_assoc, List.singleton_append,
        wordsOfLine_append_cons h.1, ih h.2]

/-- A type descriptor is not taken for a comment. -/
theorem isShown_of_parse {d : String} {t : TypeDescriptor} (h : TypeDescriptor.parse d = .ok t)
    (hd : IsWord d.toList) : IsShown d.toList := by
  refine ⟨hd, ?_⟩
  rw [(toText_of_parse h).1]
  cases t with
  | void => decide
  | value t =>
    obtain ⟨dimensions, element⟩ := t
    cases dimensions with
    | succ n => simp [TypeDescriptor.toText, FieldType.toText, List.replicate_succ]
    | zero =>
      cases element with
      | primitive kind => cases kind <;> decide
      | object name => simp [TypeDescriptor.toText, FieldType.toText, ElementType.toText]

/-! ### Entries that lines can give -/

/-- An entry that can be written as a line. -/
inductive Representable : MappingEntry → Prop
  | class {old new : String} (old_isShown : IsShown old.toList) (noPoint : '.' ∉ old.toList)
      (noParenthesis : '(' ∉ old.toList) (new_isShown : IsShown new.toList) :
    Representable (.class old new)
  | anyField {owner name new : String} (owner_isShown : IsShown owner.toList)
      (name_isWord : IsWord name.toList) (noPoint : '.' ∉ name.toList)
      (noParenthesis : '(' ∉ owner.toList ++ name.toList) (new_isShown : IsShown new.toList) :
    Representable (.field ⟨owner, name, none⟩ new)
  | field {owner name descriptor new : String} {t : TypeDescriptor}
      (owner_isShown : IsShown owner.toList) (name_isWord : IsWord name.toList)
      (noPoint : '.' ∉ name.toList) (descriptor_isWord : IsWord descriptor.toList)
      (parsed : TypeDescriptor.parse descriptor = .ok t) (new_isShown : IsShown new.toList) :
    Representable (.field ⟨owner, name, some descriptor⟩ new)
  | method {owner name descriptor new : String} {t : MethodDescriptor}
      (owner_isShown : IsShown owner.toList) (name_isWord : IsWord name.toList)
      (noPoint : '.' ∉ name.toList) (noParenthesis : '(' ∉ owner.toList ++ name.toList)
      (descriptor_isWord : IsWord descriptor.toList)
      (parsed : MethodDescriptor.parse descriptor = .ok t) (new_isShown : IsShown new.toList) :
    Representable (.method ⟨owner, name, descriptor⟩ new)

/-- **Whatever a line gives is representable.** -/
theorem representable_of_gives {e : MappingEntry} (h : Gives line e) : Representable e := by
  have shown : ∀ word ∈ wordsOfLine line, IsShown word := fun _ => isShown_of_mem_wordsOfLine
  rw [Gives] at h
  generalize wordsOfLine line = ws at h shown
  cases h with
  | «class» old new noPoint noParenthesis =>
    exact .class (shown _ (by simp)) noPoint noParenthesis (shown _ (by simp))
  | anyField owner name new owner_ne name_ne noPoint noParenthesis =>
    obtain ⟨owner', name'⟩ := (shown _ List.mem_cons_self).member owner_ne name_ne
    exact .anyField owner' name' noPoint noParenthesis (shown _ (by simp))
  | field owner name descriptor new owner_ne name_ne noPoint parsed =>
    obtain ⟨owner', name'⟩ := (shown _ List.mem_cons_self).member owner_ne name_ne
    exact .field owner' name' noPoint (shown descriptor.toList (by simp)).toIsWord parsed
      (shown _ (by simp))
  | method owner name descriptor new owner_ne name_ne noPoint noParenthesis parsed =>
    have target : IsShown ((owner.toList ++ '.' :: name.toList) ++ descriptor.toList) := by
      simpa using shown _ List.mem_cons_self
    obtain ⟨owner', name'⟩ := (target.left (by simp)).member owner_ne name_ne
    obtain ⟨rest, opens⟩ := head_of_parse parsed
    exact .method owner' name' noPoint noParenthesis (target.right (by simp [opens])) parsed
      (shown _ (by simp))

/-- A representable entry is spelled by words. -/
theorem exists_words_of_representable {e : MappingEntry} (h : Representable e) :
    ∃ ws, Spells ws e ∧ ∀ word ∈ ws, IsShown word := by
  cases h with
  | «class» old_isShown noPoint noParenthesis new_isShown =>
    exact ⟨_, .class _ _ noPoint noParenthesis, by simp [old_isShown, new_isShown]⟩
  | anyField owner_isShown name_isWord noPoint noParenthesis new_isShown =>
    have target := owner_isShown.append (name_isWord.cons (c := '.') (by decide))
    exact ⟨_, .anyField _ _ _ (by simpa using owner_isShown.ne_nil)
      (by simpa using name_isWord.ne_nil) noPoint noParenthesis, by simp [target, new_isShown]⟩
  | field owner_isShown name_isWord noPoint descriptor_isWord parsed new_isShown =>
    have target := owner_isShown.append (name_isWord.cons (c := '.') (by decide))
    have descriptor := isShown_of_parse parsed descriptor_isWord
    exact ⟨_, .field _ _ _ _ (by simpa using owner_isShown.ne_nil)
      (by simpa using name_isWord.ne_nil) noPoint parsed,
      by simp [target, descriptor, new_isShown]⟩
  | method owner_isShown name_isWord noPoint noParenthesis descriptor_isWord parsed new_isShown =>
    have target := owner_isShown.append
      ((name_isWord.append descriptor_isWord).cons (c := '.') (by decide))
    exact ⟨_, .method _ _ _ _ (by simpa using owner_isShown.ne_nil)
      (by simpa using name_isWord.ne_nil) noPoint noParenthesis parsed,
      by simp [target, new_isShown]⟩

/-- What is written for an entry are the words that spell it. -/
theorem toLine?_of_spells {ws : List (List Char)} {e : MappingEntry} (h : Spells ws e) :
    e.toLine? = some (String.ofList ([' '].intercalate ws)) := by
  cases h with
  | «class» old new =>
    refine congrArg some (String.toList_injective ?_)
    show (old ++ " " ++ new).toList = _
    simp [List.intercalate]
  | anyField owner name new =>
    refine congrArg some (String.toList_injective ?_)
    show (owner ++ "." ++ name ++ " " ++ new).toList = _
    simp [List.intercalate]
  | field owner name descriptor new =>
    refine congrArg some (String.toList_injective ?_)
    show (owner ++ "." ++ name ++ " " ++ descriptor ++ " " ++ new).toList = _
    simp [List.intercalate]
  | method owner name descriptor new =>
    refine congrArg some (String.toList_injective ?_)
    show (owner ++ "." ++ name ++ descriptor ++ " " ++ new).toList = _
    simp [List.intercalate]

/-- **What is written for a representable entry gives it**, in one line. -/
theorem gives_of_representable {e : MappingEntry} (h : Representable e) :
    ∃ line, e.toLine? = some line ∧ Gives line.toList e ∧ '\n' ∉ line.toList := by
  obtain ⟨ws, spelled, shown⟩ := exists_words_of_representable h
  refine ⟨_, toLine?_of_spells spelled, ?_, ?_⟩
  · rw [Gives, String.toList_ofList, wordsOfLine_intercalate shown]
    exact spelled
  · rw [String.toList_ofList]
    exact notMem_intercalate fun word hw => (shown word hw).toIsWord

end MappingEntry

end Pseudonym
