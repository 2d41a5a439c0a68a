import Mathlib.Data.List.Basic
import Pseudonym.Proofs.Token
import Pseudonym.Token.Restore

/-!
# Restoring text from left to right

`segments` looks for opening markers. This file says what restoring does at each place of a text
instead, so that a text can be restored piece by piece:

* where no opening marker begins, the character stays (`restoreText_cons`);
* where a token begins, its name takes its place and restoring goes on behind it
  (`restoreText_encode`, and `restoreText_encodeClass` for a class with packages).

The second point needs that a token ends where the first closing marker behind its opening one ends.
A closing marker starts with two underscores, and in what is written for a name every underscore has
a hexadecimal digit behind it, so no closing marker begins inside (`cut?_closing_encode`).
-/

namespace Pseudonym.Markers

open Text

variable (m : Markers)

/-- The text with every token replaced by its name, as a list of characters. -/
def restoreText (text : List Char) : List Char := (m.segments text).flatMap Segment.restored

/-! ### Along the segments -/

theorem segments_of_none {text : List Char} (h : cut? m.opening text = none) :
    m.segments text = [.kept text] := by
  rw [segments.eq_def]
  split
  · rfl
  · next h' => exact absurd (h.symm.trans h') (by simp)

theorem segments_of_token {text before framed body name rest : List Char}
    (h : cut? m.opening text = some (before, framed))
    (hf : m.framed? framed = some (body, name, rest)) :
    m.segments text = .kept before :: .token body name :: m.segments rest := by
  rw [segments.eq_def]
  split
  · next h' => exact absurd (h.symm.trans h') (by simp)
  · next h' =>
    obtain ⟨rfl, rfl⟩ := Prod.mk.inj (Option.some.inj (h.symm.trans h'))
    split
    · next hf' =>
      obtain ⟨rfl, hn⟩ := Prod.mk.inj (Option.some.inj (hf.symm.trans hf'))
      obtain ⟨rfl, rfl⟩ := Prod.mk.inj hn
      rfl
    · next hf' => exact absurd (hf.symm.trans hf') (by simp)

theorem segments_of_no_token {text before framed : List Char}
    (h : cut? m.opening text = some (before, framed)) (hf : m.framed? framed = none) :
    m.segments text = .kept (before ++ m.opening) :: m.segments framed := by
  rw [segments.eq_def]
  split
  · next h' => exact absurd (h.symm.trans h') (by simp)
  · next h' =>
    obtain ⟨rfl, rfl⟩ := Prod.mk.inj (Option.some.inj (h.symm.trans h'))
    split
    · next hf' => exact absurd (hf.symm.trans hf') (by simp)
    · rfl

theorem restoreText_of_none {text : List Char} (h : cut? m.opening text = none) :
    m.restoreText text = text := by
  rw [restoreText, m.segments_of_none h]
  simp [Segment.restored]

theorem restoreText_of_token {text before framed body name rest : List Char}
    (h : cut? m.opening text = some (before, framed))
    (hf : m.framed? framed = some (body, name, rest)) :
    m.restoreText text = before ++ name ++ m.restoreText rest := by
  rw [restoreText, m.segments_of_token h hf]
  simp [Segment.restored, restoreText]

theorem restoreText_of_no_token {text before framed : List Char}
    (h : cut? m.opening text = some (before, framed)) (hf : m.framed? framed = none) :
    m.restoreText text = before ++ m.opening ++ m.restoreText framed := by
  rw [restoreText, m.segments_of_no_token h hf]
  simp [Segment.restored, restoreText]

/-- Where no token is found, what is restored is what was written. -/
theorem toList_restore (text : String) : (m.restore text).toList = m.restoreText text.toList := by
  by_cases h : (m.segments text.toList).any Segment.isToken = true
  · rw [restore, restore?, if_pos h, Option.getD_some, String.toList_ofList, restoreText]
  · rw [restore, restore?, if_neg h, Option.getD_none]
    have kept : ∀ s ∈ m.segments text.toList, s.written m = s.restored := by
      intro s hs
      cases s with
      | kept text => rfl
      | token body name => exact absurd (List.any_eq_true.2 ⟨_, hs, rfl⟩) h
    conv_lhs => rw [← m.flatMap_written_segments text.toList]
    rw [restoreText, List.flatMap_congr kept]

/-! ### Along the text -/

theorem restoreText_nil : m.restoreText [] = [] :=
  m.restoreText_of_none (if_neg m.wellFormed.opening_ne_nil)

/-- Where no opening marker begins, the character stays. -/
theorem restoreText_cons {c : Char} {rest : List Char} (h : ¬ m.opening <+: c :: rest) :
    m.restoreText (c :: rest) = c :: m.restoreText rest := by
  have step := cut?_cons h
  cases found : cut? m.opening rest with
  | none =>
    rw [found, Option.map_none] at step
    rw [m.restoreText_of_none step, m.restoreText_of_none found]
  | some halves =>
    obtain ⟨before, framed⟩ := halves
    rw [found, Option.map_some] at step
    cases hf : m.framed? framed with
    | none =>
      rw [m.restoreText_of_no_token step hf, m.restoreText_of_no_token found hf]
      rfl
    | some token =>
      obtain ⟨body, name, after⟩ := token
      rw [m.restoreText_of_token step hf, m.restoreText_of_token found hf]
      rfl

/-- A stretch of a text in which no opening marker begins stays. -/
theorem restoreText_append : ∀ {kept rest : List Char},
    (∀ before after, kept = before ++ after → after ≠ [] → ¬ m.opening <+: after ++ rest) →
    m.restoreText (kept ++ rest) = kept ++ m.restoreText rest := by
  intro kept rest
  induction kept with
  | nil => intro _; rfl
  | cons c kept ih =>
    intro h
    have first : ¬ m.opening <+: c :: (kept ++ rest) := h [] (c :: kept) rfl (by simp)
    rw [List.cons_append, m.restoreText_cons first, ih]
    · rfl
    · intro before after same
      exact h (c :: before) after (by rw [same, List.cons_append])

theorem not_mem_opening {c : Char} (h : isTokenChar c = false) : c ∉ m.opening := by
  intro hc
  exact absurd (m.wellFormed.opening_chars c hc) (by simp [h])

theorem not_opening_prefix {c : Char} (h : c ∉ m.opening) (rest : List Char) :
    ¬ m.opening <+: c :: rest := by
  intro hp
  have start : m.opening <+: [] := prefix_of_notMem h hp
  exact m.wellFormed.opening_ne_nil (List.prefix_nil.1 start)

/-- A character that no marker holds stays. -/
theorem restoreText_cons_of_notMem {c : Char} (h : c ∉ m.opening) (rest : List Char) :
    m.restoreText (c :: rest) = c :: m.restoreText rest :=
  m.restoreText_cons (m.not_opening_prefix h rest)

/-- A text without opening marker stays. -/
theorem restoreText_of_not_infix {text : List Char} (h : ¬ m.opening <:+: text) :
    m.restoreText text = text := by
  have kept : m.restoreText (text ++ []) = text ++ m.restoreText [] := by
    refine m.restoreText_append ?_
    rintro before after rfl _ ⟨behind, same⟩
    rw [List.append_nil] at same
    exact h ⟨before, behind, by rw [List.append_assoc, same]⟩
  rwa [List.append_nil, restoreText_nil, List.append_nil] at kept

/-- A text without opening marker stays in front of a character that no marker holds. -/
theorem restoreText_append_cons {text rest : List Char} {c : Char} (h : ¬ m.opening <:+: text)
    (hc : c ∉ m.opening) :
    m.restoreText (text ++ c :: rest) = text ++ c :: m.restoreText rest := by
  rw [m.restoreText_append, m.restoreText_cons_of_notMem hc]
  rintro before after rfl _ hp
  obtain ⟨behind, rfl⟩ := prefix_of_notMem hc hp
  exact h ⟨before, behind, List.append_assoc ..⟩

/-! ### Where a token ends -/

theorem not_closing_prefix_of_ne {c : Char} (h : c ≠ '_') (rest : List Char) :
    ¬ m.closing <+: c :: rest := by
  obtain ⟨tail, _, closes⟩ := m.wellFormed.delimiter_closing
  rw [closes, delimiter, List.cons_append, List.cons_prefix_cons]
  exact fun hp => h hp.1.symm

theorem not_closing_prefix_underscore {c : Char} (h : c ≠ '_') (rest : List Char) :
    ¬ m.closing <+: '_' :: c :: rest := by
  obtain ⟨tail, _, closes⟩ := m.wellFormed.delimiter_closing
  rw [closes, delimiter, List.cons_append, List.cons_append, List.cons_prefix_cons,
    List.cons_prefix_cons]
  exact fun hp => h hp.2.1.symm

theorem cut?_closing_escape (u : UInt16) (rest : List Char) :
    cut? m.closing (escape u ++ rest) =
      (cut? m.closing rest).map fun halves => (escape u ++ halves.1, halves.2) := by
  have digit : ∀ k, hexDigit (k % 16) ≠ '_' :=
    fun k => hexDigit_ne_underscore _ (Nat.mod_lt _ (by decide))
  simp only [escape, hexWord, List.cons_append, List.nil_append]
  rw [cut?_cons (m.not_closing_prefix_underscore (digit _) _),
    cut?_cons (m.not_closing_prefix_of_ne (digit _) _),
    cut?_cons (m.not_closing_prefix_of_ne (digit _) _),
    cut?_cons (m.not_closing_prefix_of_ne (digit _) _),
    cut?_cons (m.not_closing_prefix_of_ne (digit _) _)]
  simp only [Option.map_map, Function.comp_def]

theorem cut?_closing_flatMap_escape (us : List UInt16) (rest : List Char) :
    cut? m.closing (us.flatMap escape ++ rest) =
      (cut? m.closing rest).map fun halves => (us.flatMap escape ++ halves.1, halves.2) := by
  induction us with
  | nil => simp
  | cons u us ih =>
    rw [List.flatMap_cons, List.append_assoc, cut?_closing_escape, ih]
    simp only [Option.map_map, Function.comp_def, List.append_assoc]

theorem encodeChar_false_cases (c : Char) :
    (c.isAlphanum = true ∧ m.encodeChar false c = [c]) ∨
      m.encodeChar false c = (units c).flatMap escape := by
  rcases m.encodeChar_cases false c with h | ⟨_, h, _⟩ | h
  · exact Or.inl h
  · exact absurd h (by decide)
  · exact Or.inr h

theorem cut?_closing_encodeChar (c : Char) (rest : List Char) :
    cut? m.closing (m.encodeChar false c ++ rest) =
      (cut? m.closing rest).map fun halves => (m.encodeChar false c ++ halves.1, halves.2) := by
  rcases m.encodeChar_false_cases c with ⟨letter, written⟩ | written
  · rw [written, List.singleton_append,
      cut?_cons (m.not_closing_prefix_of_ne (ne_underscore_of_isAlphanum letter) rest)]
    rfl
  · rw [written, cut?_closing_flatMap_escape]

/-- **No closing marker begins inside what is written for a name.** -/
theorem cut?_closing_encode (name rest : List Char) :
    cut? m.closing (name.flatMap (m.encodeChar false) ++ (m.closing ++ rest)) =
      some (name.flatMap (m.encodeChar false), rest) := by
  induction name with
  | nil => exact cut?_append_self m.closing rest
  | cons c name ih =>
    rw [List.flatMap_cons, List.append_assoc, cut?_closing_encodeChar, ih, Option.map_some]

theorem isTokenChar_of_mem_encode {name : List Char} {d : Char}
    (h : d ∈ name.flatMap (m.encodeChar false)) : isTokenChar d = true := by
  obtain ⟨c, _, hd⟩ := List.mem_flatMap.1 h
  exact (m.mem_encodeChar hd).resolve_right (by simp)

theorem name?_encode (name : List Char) :
    m.name? (name.flatMap (m.encodeChar false)) = some name := by
  rw [name?, if_pos (List.all_eq_true.2 fun _ h => m.isTokenChar_of_mem_encode h),
    decodeBody_encode]
  rfl

/-! ### Tokens in a text -/

/-- **A token gives way to its name**, and restoring goes on behind it. -/
theorem restoreText_encode (name rest : List Char) :
    m.restoreText (m.encodeText false name ++ rest) = name ++ m.restoreText rest := by
  have opened : cut? m.opening (m.encodeText false name ++ rest) =
      some ([], name.flatMap (m.encodeChar false) ++ (m.closing ++ rest)) := by
    rw [encodeText, List.append_assoc, List.append_assoc]
    exact cut?_append_self ..
  have framed : m.framed? (name.flatMap (m.encodeChar false) ++ (m.closing ++ rest)) =
      some (name.flatMap (m.encodeChar false), name, rest) := by
    rw [framed?_eq, cut?_closing_encode]
    simp only [name?_encode, Option.map_some]
  rw [m.restoreText_of_token opened framed, List.nil_append]

theorem encodeChar_true_of_ne {c : Char} (h : c ≠ '/') :
    m.encodeChar true c = m.encodeChar false c := by
  simp [encodeChar, h]

/-- Without separators the token of a class is a token like any other. -/
theorem encodeText_true_of_notMem {name : List Char} (h : '/' ∉ name) :
    m.encodeText true name = m.encodeText false name := by
  have same : ∀ c ∈ name, m.encodeChar true c = m.encodeChar false c := by
    intro c hc
    exact m.encodeChar_true_of_ne (fun he => h (he ▸ hc))
  rw [encodeText, encodeText, List.flatMap_congr same]

/-- The token of a class is the tokens of its packages and of its simple name, with separators
between them. -/
theorem encodeText_true_append (package name : List Char) :
    m.encodeText true (package ++ '/' :: name) =
      m.encodeText true package ++ '/' :: m.encodeText true name := by
  have separator : m.encodeChar true '/' = m.closing ++ '/' :: m.opening := by
    rw [encodeChar, if_neg (by decide), if_pos (by decide), boundary]
  simp only [encodeText, List.flatMap_append, List.flatMap_cons, separator, List.append_assoc,
    List.cons_append]

/-- A text with another character for the separators. -/
def separated (separator : Char) (text : List Char) : List Char :=
  text.map fun c => if c = '/' then separator else c

theorem separated_append (separator : Char) (text rest : List Char) :
    separated separator (text ++ rest) = separated separator text ++ separated separator rest :=
  List.map_append

theorem separated_of_notMem {separator : Char} {text : List Char} (h : '/' ∉ text) :
    separated separator text = text := by
  have same : ∀ c ∈ text, (if c = '/' then separator else c) = id c := by
    intro c hc
    have other : c ≠ '/' := fun slash => h (slash ▸ hc)
    exact if_neg other
  rw [separated, List.map_congr_left same, List.map_id]

theorem separated_slash (text : List Char) : separated '/' text = text := by
  have same : ∀ c ∈ text, (if c = '/' then '/' else c) = id c := by
    intro c _
    by_cases slash : c = '/'
    · simp [slash]
    · simp [slash]
  rw [separated, List.map_congr_left same, List.map_id]

theorem slash_notMem_encode (name : List Char) : '/' ∉ m.encodeText false name := by
  intro h
  rw [encodeText, List.mem_append, List.mem_append] at h
  have letter : isTokenChar '/' = true := by
    rcases h with (opening | body) | closing
    · exact m.wellFormed.opening_chars _ opening
    · exact m.isTokenChar_of_mem_encode body
    · exact m.wellFormed.closing_chars _ closing
  exact absurd letter (by decide)

/-- Names of classes, package by package: to prove something of all of them it is proved of names
without a separator, and of names behind a package. -/
@[elab_as_elim] theorem package_induction {motive : List Char → Prop}
    (simple : ∀ name, '/' ∉ name → motive name)
    (packaged : ∀ package name, '/' ∉ package → motive name → motive (package ++ '/' :: name))
    (name : List Char) : motive name := by
  induction hn : name.length using Nat.strongRecOn generalizing name with
  | _ n ih =>
    by_cases slash : '/' ∈ name
    · obtain ⟨package, rest, rfl, single⟩ := List.eq_append_cons_of_mem slash
      rw [List.length_append, List.length_cons] at hn
      exact packaged package rest single (ih rest.length (by omega) rest rfl)
    · exact simple name slash

/-- **The token of a class gives way to its name**, whatever the text shows for the separators. -/
theorem restoreText_separated {separator : Char} (hs : separator ∉ m.opening)
    (name rest : List Char) :
    m.restoreText (separated separator (m.encodeText true name) ++ rest) =
      separated separator name ++ m.restoreText rest := by
  have shown : ∀ text, separated separator ('/' :: text) =
      separator :: separated separator text := fun _ => rfl
  induction name using package_induction with
  | simple name single =>
    rw [m.encodeText_true_of_notMem single, separated_of_notMem (m.slash_notMem_encode name),
      separated_of_notMem single, restoreText_encode]
  | packaged package name single ih =>
    rw [encodeText_true_append, m.encodeText_true_of_notMem single, separated_append,
      separated_append, separated_of_notMem (m.slash_notMem_encode package),
      separated_of_notMem single, shown, shown, List.append_assoc, restoreText_encode,
      List.cons_append, m.restoreText_cons_of_notMem hs, ih, List.append_assoc, List.cons_append]

/-- **The token of a class gives way to its name**, separators included. -/
theorem restoreText_encodeClass (name rest : List Char) :
    m.restoreText (m.encodeText true name ++ rest) = name ++ m.restoreText rest := by
  have shown := m.restoreText_separated (m.not_mem_opening (c := '/') (by decide)) name rest
  rwa [separated_slash, separated_slash] at shown

theorem restoreText_encodeText (isClass : Bool) (name rest : List Char) :
    m.restoreText (m.encodeText isClass name ++ rest) = name ++ m.restoreText rest := by
  cases isClass with
  | false => exact m.restoreText_encode name rest
  | true => exact m.restoreText_encodeClass name rest

end Pseudonym.Markers
