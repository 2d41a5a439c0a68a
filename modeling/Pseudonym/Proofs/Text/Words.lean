import Mathlib.Data.List.Basic
import Pseudonym.Proofs.Text
import Pseudonym.Text.Blank

/-!
# Words and lines

Words and lines are what `List.splitOnP` cuts a text into, so a blank ends what stands before it
(`words_append_cons`) and so does a line feed (`lines_append_cons`),

    words (text ++ c :: rest) = words text ++ words rest,

and neither is left in what was cut (`not_stop_of_mem_splitOnP`).
-/

namespace Pseudonym.Text

/-! ### Cutting at every stop -/

variable {stop : Char → Bool}

/-- What is cut into two rows of parts is cut at a stop between them. -/
theorem exists_of_splitOnP_eq_append {text : List Char} {front back : List (List Char)}
    (hf : front ≠ []) (hb : back ≠ []) (h : text.splitOnP stop = front ++ back) :
    ∃ before c after, text = before ++ c :: after ∧ stop c = true ∧
      before.splitOnP stop = front ∧ after.splitOnP stop = back := by
  induction text generalizing front with
  | nil =>
    have short := congrArg List.length h
    have := List.length_pos_iff.2 hf
    have := List.length_pos_iff.2 hb
    simp only [List.splitOnP_nil, List.length_singleton, List.length_append] at short
    omega
  | cons d text ih =>
    obtain ⟨first, front, rfl⟩ := List.exists_cons_of_ne_nil hf
    rw [List.splitOnP_cons_eq_if_modifyHead] at h
    by_cases hd : stop d = true
    · rw [if_pos hd, List.cons_append, List.cons.injEq] at h
      obtain ⟨rfl, h⟩ := h
      by_cases last : front = []
      · subst last
        exact ⟨[], d, text, rfl, hd, List.splitOnP_nil, h⟩
      · obtain ⟨before, c, after, rfl, hc, hbefore, hafter⟩ := ih last h
        exact ⟨d :: before, c, after, rfl, hc,
          by rw [List.splitOnP_cons_eq_if_modifyHead, if_pos hd, hbefore], hafter⟩
    · rw [if_neg hd] at h
      obtain ⟨part, others, found⟩ := List.exists_cons_of_ne_nil (List.splitOnP_ne_nil stop text)
      rw [found, List.modifyHead_cons, List.cons_append, List.cons.injEq] at h
      obtain ⟨rfl, rfl⟩ := h
      obtain ⟨before, c, after, rfl, hc, hbefore, hafter⟩ :=
        ih (List.cons_ne_nil part front) found
      exact ⟨d :: before, c, after, rfl, hc,
        by rw [List.splitOnP_cons_eq_if_modifyHead, if_neg hd, hbefore, List.modifyHead_cons],
        hafter⟩

/-- No stop is left in a part. -/
theorem not_stop_of_mem_splitOnP {text part : List Char} (h : part ∈ text.splitOnP stop) :
    ∀ c ∈ part, stop c = false := by
  induction text generalizing part with
  | nil =>
    rw [List.splitOnP_nil, List.mem_singleton] at h
    simp [h]
  | cons d text ih =>
    rw [List.splitOnP_cons_eq_if_modifyHead] at h
    split at h
    · rcases List.mem_cons.1 h with rfl | h
      · simp
      · exact ih h
    · next hd =>
      obtain ⟨first, others, found⟩ := List.exists_cons_of_ne_nil (List.splitOnP_ne_nil stop text)
      rw [found, List.modifyHead_cons] at h
      rw [found] at ih
      rcases List.mem_cons.1 h with rfl | h
      · exact List.forall_mem_cons.2 ⟨by simpa using hd, ih List.mem_cons_self⟩
      · exact ih (List.mem_cons_of_mem _ h)

/-! ### Words -/

/-- A text that is one word. -/
structure IsWord (text : List Char) : Prop where
  ne_nil : text ≠ []
  not_blank : ∀ c ∈ text, isBlank c = false

instance (text : List Char) : Decidable (IsWord text) :=
  decidable_of_iff (text ≠ [] ∧ text.all (!isBlank ·) = true)
    ⟨fun h => ⟨h.1, by simpa using h.2⟩, fun h => ⟨h.ne_nil, by simpa using h.not_blank⟩⟩

theorem words_append_cons {c : Char} (hc : isBlank c = true) (text rest : List Char) :
    words (text ++ c :: rest) = words text ++ words rest := by
  rw [words, List.splitOnP_append_cons text rest hc, List.filter_append, words, words]

theorem IsWord.words_eq {text : List Char} (h : IsWord text) : words text = [text] := by
  rw [words, List.splitOnP_eq_singleton h.not_blank]
  exact List.filter_cons_of_pos (by simp [h.ne_nil])

theorem isWord_of_mem_words {text word : List Char} (h : word ∈ words text) : IsWord word := by
  obtain ⟨part, nonempty⟩ := List.mem_filter.1 h
  exact ⟨by simpa using nonempty, not_stop_of_mem_splitOnP part⟩

theorem IsWord.cons {c : Char} (hc : isBlank c = false) {text : List Char} (h : IsWord text) :
    IsWord (c :: text) :=
  ⟨List.cons_ne_nil c text, List.forall_mem_cons.2 ⟨hc, h.not_blank⟩⟩

theorem IsWord.append {front back : List Char} (hf : IsWord front) (hb : IsWord back) :
    IsWord (front ++ back) :=
  ⟨List.append_ne_nil_of_left_ne_nil hf.ne_nil back,
    List.forall_mem_append.2 ⟨hf.not_blank, hb.not_blank⟩⟩

/-! ### Lines -/

theorem lines_append_cons (text rest : List Char) :
    lines (text ++ '\n' :: rest) = lines text ++ lines rest :=
  List.splitOn_append_cons_self ..

theorem lines_of_notMem {line : List Char} (h : '\n' ∉ line) : lines line = [line] :=
  List.splitOn_eq_singleton h

theorem notMem_of_mem_lines {text line : List Char} (h : line ∈ lines text) : '\n' ∉ line :=
  forall_beq_eq_false_iff.1 (not_stop_of_mem_splitOnP h)

/-- What was written as lines is read as these lines, and as an empty one behind the last. -/
theorem lines_flatMap {ls : List (List Char)} (h : ∀ line ∈ ls, '\n' ∉ line) :
    lines (ls.flatMap (· ++ ['\n'])) = ls ++ [[]] := by
  induction ls with
  | nil => rfl
  | cons line ls ih =>
    rw [List.forall_mem_cons] at h
    rw [List.flatMap_cons, List.append_assoc, List.singleton_append, lines_append_cons,
      lines_of_notMem h.1, ih h.2, List.singleton_append, List.cons_append]

/-- Words that are written with blanks between them stand in one line. -/
theorem notMem_intercalate {ws : List (List Char)} (h : ∀ word ∈ ws, IsWord word) :
    '\n' ∉ [' '].intercalate ws := by
  induction ws with
  | nil => simp
  | cons word ws ih =>
    rw [List.forall_mem_cons] at h
    have outside : '\n' ∉ word := fun hm => absurd (h.1.not_blank _ hm) (by decide)
    cases ws with
    | nil => rwa [List.intercalate_singleton]
    | cons next ws =>
      rw [List.intercalate_cons_cons]
      simp [outside, ih h.2]

end Pseudonym.Text
