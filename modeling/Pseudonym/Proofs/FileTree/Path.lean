import Mathlib.Data.List.Basic
import Mathlib.Data.List.TakeWhile
import Pseudonym.FileTree.Path
import Pseudonym.Proofs.Text.Words

/-!
# Paths that only lead down

A path is plain (`IsPlain`) if each of its parts leads one step down, so that it is nothing but the
list of its parts. For plain paths the directories around a path are found by taking off one part
after the other:

    ancestors (around / last) = (around / last) :: ancestors around.

Paths are taken apart from the front (`parts_append`) and from the end (`exists_last`).
-/

namespace Pseudonym

namespace Path

open Text

/-! ### Parts -/

theorem parts_append (around rest : String) :
    parts (around ++ "/" ++ rest) = parts around ++ parts rest := by
  have text : (around ++ "/" ++ rest).toList = around.toList ++ '/' :: rest.toList := by simp
  rw [parts, text, List.splitOn_append_cons_self, List.map_append]
  rfl

theorem parts_of_notMem {part : String} (h : '/' ∉ part.toList) : parts part = [part] := by
  rw [parts, List.splitOn_eq_singleton h, List.map_singleton, String.ofList_toList]

theorem parts_ne_nil (path : String) : parts path ≠ [] := by
  simp [parts, List.splitOn_ne_nil]

theorem parts_injective : Function.Injective parts := by
  intro path path' h
  have same : path.toList.splitOn '/' = path'.toList.splitOn '/' :=
    List.map_injective_iff.2 (fun _ _ => String.ofList_injective) h
  apply String.toList_injective
  calc path.toList = ['/'].intercalate (path.toList.splitOn '/') :=
        (List.intercalate_splitOn '/').symm
    _ = ['/'].intercalate (path'.toList.splitOn '/') := by rw [same]
    _ = path'.toList := List.intercalate_splitOn '/'

theorem exists_of_parts_eq_append {path : String} {front back : List String} (hf : front ≠ [])
    (hb : back ≠ []) (h : parts path = front ++ back) :
    ∃ around rest, path = around ++ "/" ++ rest ∧ parts around = front ∧ parts rest = back := by
  obtain ⟨front', back', cut, rfl, rfl⟩ := List.map_eq_append_iff.1 h
  obtain ⟨before, c, after, text, hc, hbefore, hafter⟩ := exists_of_splitOnP_eq_append
    (by simpa using hf) (by simpa using hb) cut
  obtain rfl := beq_iff_eq.1 hc
  have whole : path = String.ofList before ++ "/" ++ String.ofList after :=
    String.toList_injective (by simp [text])
  refine ⟨String.ofList before, String.ofList after, whole, ?_, ?_⟩
  · simp [parts, List.splitOn_eq_splitOnP, hbefore]
  · simp [parts, List.splitOn_eq_splitOnP, hafter]

/-- A path with a slash has a last part. -/
theorem exists_last {path : String} (h : '/' ∈ path.toList) :
    ∃ around last, path = around ++ "/" ++ last ∧ '/' ∉ last.toList := by
  obtain ⟨after, before, reversed, fresh⟩ :=
    List.eq_append_cons_of_mem (List.mem_reverse.2 h)
  refine ⟨String.ofList before.reverse, String.ofList after.reverse, ?_, by simpa using fresh⟩
  apply String.toList_injective
  rw [← List.reverse_reverse path.toList, reversed]
  simp

/-! ### Plain paths -/

/-- Whether every part of a path leads one step down. -/
def IsPlain (path : String) : Prop := ∀ part ∈ parts path, isIdle part = false ∧ part ≠ ".."

/-- Whether a path goes on after another one. -/
def LeadsTo (around path : String) : Prop := ∃ rest, path = around ++ "/" ++ rest

variable {around rest last path : String}

theorem not_leadsTo_self (path : String) : ¬LeadsTo path path := by
  rintro ⟨rest, cycle⟩
  have longer := congrArg (List.length ∘ parts) cycle
  have := List.length_pos_iff.2 (parts_ne_nil rest)
  simp only [Function.comp_apply, parts_append, List.length_append] at longer
  omega

theorem isPlain_append : IsPlain (around ++ "/" ++ rest) ↔ IsPlain around ∧ IsPlain rest := by
  simp only [IsPlain, parts_append, List.forall_mem_append]

theorem not_isPlain_empty : ¬IsPlain "" := fun h => absurd (h "" (by decide)).1 (by decide)

/-- **An induction for plain paths**, from the outermost directory on. -/
theorem IsPlain.induction {motive : String → Prop}
    (single : ∀ part, '/' ∉ part.toList → IsPlain part → motive part)
    (deeper : ∀ around last, '/' ∉ last.toList → IsPlain (around ++ "/" ++ last) → motive around →
      motive (around ++ "/" ++ last)) (plain : IsPlain path) : motive path := by
  induction hs : path.length using Nat.strongRecOn generalizing path with
  | ind size ih =>
    by_cases slash : '/' ∈ path.toList
    · obtain ⟨around, last, rfl, fresh⟩ := exists_last slash
      have shorter : around.length < size := by
        have slashLength : "/".length = 1 := rfl
        rw [← hs, String.length_append, String.length_append]
        omega
      exact deeper around last fresh plain (ih _ shorter (isPlain_append.1 plain).1 rfl)
    · exact single path slash plain

/-- A plain path does not end with a slash or an idle part. -/
theorem IsPlain.not_ends (plain : IsPlain path) (last text : List Char)
    (idle : isIdle (String.ofList last) = true) (fresh : '/' ∉ last) :
    path.toList.reverse ≠ last.reverse ++ '/' :: text := by
  intro reversed
  have written : path = String.ofList text.reverse ++ "/" ++ String.ofList last := by
    apply String.toList_injective
    rw [← List.reverse_reverse path.toList, reversed]
    simp
  rw [written, isPlain_append] at plain
  have whole : parts (String.ofList last) = [String.ofList last] :=
    parts_of_notMem (by simpa using fresh)
  exact absurd idle (by simp [(plain.2 _ (whole ▸ List.mem_singleton_self _)).1])

/-- Nothing is taken off a plain path, wherever it stands. -/
theorem trimReversed_append (plain : IsPlain path) (before : List Char) :
    trimReversed (path.toList.reverse ++ before) = path.toList.reverse ++ before := by
  have noSlash := fun text => plain.not_ends [] text (by decide) (by simp)
  have noPoint := fun text => plain.not_ends ['.'] text (by decide) (by decide)
  have onlyPoint : path.toList.reverse ≠ ['.'] := by
    intro point
    have written : path = "." := by
      apply String.toList_injective
      rw [← List.reverse_reverse path.toList, point]
      rfl
    exact absurd (plain "." (by rw [written]; decide)).1 (by decide)
  have nonempty : path.toList.reverse ≠ [] := by
    intro empty
    rw [List.reverse_eq_nil_iff, String.toList_eq_nil_iff] at empty
    exact not_isPlain_empty (empty ▸ plain)
  generalize path.toList.reverse = reversed at *
  obtain ⟨c, text, rfl⟩ := List.exists_cons_of_ne_nil nonempty
  rw [List.cons_append]
  unfold trimReversed
  split
  · next slash =>
    obtain ⟨rfl, _⟩ := List.cons.inj slash
    exact absurd rfl (noSlash text)
  · next rest point =>
    obtain ⟨rfl, behind⟩ := List.cons.inj point
    cases text with
    | nil => exact absurd rfl onlyPoint
    | cons d text =>
      obtain ⟨rfl, _⟩ := List.cons.inj behind
      exact absurd rfl (noPoint text)
  · rfl

theorem trimReversed_of_isPlain (plain : IsPlain path) :
    trimReversed path.toList.reverse = path.toList.reverse := by
  simpa using trimReversed_append plain []

theorem aroundReversed?_single (fresh : '/' ∉ path.toList) (plain : IsPlain path) :
    aroundReversed? path.toList.reverse = some [] := by
  have nonempty : path.toList.reverse ≠ [] := by
    intro empty
    rw [List.reverse_eq_nil_iff, String.toList_eq_nil_iff] at empty
    exact not_isPlain_empty (empty ▸ plain)
  have noSlash : path.toList.reverse ≠ ['/'] := by
    intro slash
    exact fresh (List.mem_reverse.1 (slash ▸ List.mem_singleton_self _))
  have dropped : path.toList.reverse.dropWhile (· != '/') = [] := by
    rw [List.dropWhile_eq_nil_iff]
    intro c hc
    rw [bne_iff_ne]
    rintro rfl
    exact fresh (List.mem_reverse.1 hc)
  rw [aroundReversed?, trimReversed_of_isPlain plain, if_neg (not_or.2 ⟨nonempty, noSlash⟩),
    dropped]

theorem aroundReversed?_append (fresh : '/' ∉ last.toList)
    (plain : IsPlain (around ++ "/" ++ last)) :
    aroundReversed? (around ++ "/" ++ last).toList.reverse = some around.toList.reverse := by
  have reversed : (around ++ "/" ++ last).toList.reverse =
      last.toList.reverse ++ '/' :: around.toList.reverse := by simp
  have nonempty : around.toList.reverse ≠ [] := by
    intro empty
    rw [List.reverse_eq_nil_iff, String.toList_eq_nil_iff] at empty
    exact not_isPlain_empty (empty ▸ (isPlain_append.1 plain).1)
  have dropped : (last.toList.reverse ++ '/' :: around.toList.reverse).dropWhile (· != '/') =
      '/' :: around.toList.reverse := by
    rw [List.dropWhile_append_of_pos]
    · rfl
    · intro c hc
      rw [bne_iff_ne]
      rintro rfl
      exact fresh (List.mem_reverse.1 hc)
  have more : ¬(last.toList.reverse ++ '/' :: around.toList.reverse = [] ∨
      last.toList.reverse ++ '/' :: around.toList.reverse = ['/']) := by
    rintro (short | short)
    · simp at short
    · have := congrArg List.length short
      have := List.length_pos_iff.2 nonempty
      simp only [List.length_append, List.length_cons, List.length_nil] at *
      omega
  rw [aroundReversed?, trimReversed_of_isPlain plain, reversed, if_neg more, dropped]
  have kept := trimReversed_of_isPlain (isPlain_append.1 plain).1
  generalize around.toList.reverse = text at nonempty kept ⊢
  cases text with
  | nil => exact absurd rfl nonempty
  | cons c text => exact congrArg some kept

theorem parent?_append (fresh : '/' ∉ last.toList) (plain : IsPlain (around ++ "/" ++ last)) :
    parent? (around ++ "/" ++ last) = some around := by
  rw [parent?, aroundReversed?_append fresh plain]
  simp

theorem exists_of_parent? {parent : String} (plain : IsPlain path) (slash : '/' ∈ path.toList)
    (h : parent? path = some parent) :
    ∃ last, path = parent ++ "/" ++ last ∧ '/' ∉ last.toList := by
  obtain ⟨around, last, rfl, fresh⟩ := exists_last slash
  rw [parent?_append fresh plain] at h
  exact ⟨last, Option.some.inj h ▸ rfl, fresh⟩

theorem ancestors_single (fresh : '/' ∉ path.toList) (plain : IsPlain path) :
    ancestors path = [path] := by
  have root : ancestorsReversed [] = [] := by
    rw [ancestorsReversed]
    rfl
  rw [ancestors, ancestorsReversed]
  split
  · next none => exact absurd ((aroundReversed?_single fresh plain).symm.trans none) (by simp)
  · next found =>
    obtain rfl := Option.some.inj ((aroundReversed?_single fresh plain).symm.trans found)
    simp [root]

theorem ancestors_append (fresh : '/' ∉ last.toList) (plain : IsPlain (around ++ "/" ++ last)) :
    ancestors (around ++ "/" ++ last) = (around ++ "/" ++ last) :: ancestors around := by
  rw [ancestors, ancestorsReversed]
  split
  · next none => exact absurd ((aroundReversed?_append fresh plain).symm.trans none) (by simp)
  · next found =>
    obtain rfl := Option.some.inj ((aroundReversed?_append fresh plain).symm.trans found)
    simp only [List.map_cons, List.reverse_reverse, String.ofList_toList]
    rfl

/-! ### Joining -/

/-- What stands in front of the paths below a directory. -/
def front (directory : String) : String :=
  if directory = "" then "" else if endsWithSlash directory then directory else directory ++ "/"

theorem head?_of_isPlain (plain : IsPlain path) : path.toList.head? ≠ some '/' := by
  intro slash
  obtain ⟨text, written⟩ := List.head?_eq_some_iff.1 slash
  have written : path = "" ++ "/" ++ String.ofList text :=
    String.toList_injective (by simp [written])
  exact not_isPlain_empty (isPlain_append.1 (written ▸ plain)).1

theorem endsWithSlash_of_isPlain (plain : IsPlain path) : endsWithSlash path = false := by
  rw [endsWithSlash, beq_eq_false_iff_ne]
  intro slash
  rw [← List.head?_reverse] at slash
  obtain ⟨text, reversed⟩ := List.head?_eq_some_iff.1 slash
  exact plain.not_ends [] text (by decide) (by simp) reversed

/-- A path that does not start at the root is put behind a directory. -/
theorem join_of_relative (relative : path.toList.head? ≠ some '/') (directory : String) :
    join directory path = front directory ++ path := by
  unfold join front
  by_cases empty : directory = ""
  · simp [empty]
  · simp only [relative, empty, decide_false, Bool.or_self, Bool.false_eq_true, if_false]
    split
    · rfl
    · rfl

theorem join_eq (plain : IsPlain path) (directory : String) :
    join directory path = front directory ++ path :=
  join_of_relative (head?_of_isPlain plain) directory

/-- A plain path below a directory with a plain path. -/
theorem join_of_isPlain {directory : String} (plainDirectory : IsPlain directory)
    (plain : IsPlain path) : join directory path = directory ++ "/" ++ path := by
  have nonempty : directory ≠ "" := by
    rintro rfl
    exact not_isPlain_empty plainDirectory
  rw [join_eq plain, front, if_neg nonempty, endsWithSlash_of_isPlain plainDirectory]
  rfl

theorem join_inj {path' : String} (plain : IsPlain path) (plain' : IsPlain path')
    (directory : String) : join directory path = join directory path' ↔ path = path' := by
  rw [join_eq plain, join_eq plain']
  exact String.append_right_inj _

/-- A path below a directory is in a directory. -/
theorem exists_parent?_join (plain : IsPlain path) (directory : String) :
    ∃ parent, parent? (join directory path) = some parent := by
  rw [join_eq plain, parent?, String.toList_append, List.reverse_append, aroundReversed?,
    trimReversed_append plain]
  have nonempty : path.toList.reverse ≠ [] := by
    intro empty
    rw [List.reverse_eq_nil_iff, String.toList_eq_nil_iff] at empty
    exact not_isPlain_empty (empty ▸ plain)
  have noSlash := fun text => plain.not_ends [] text (by decide) (by simp)
  obtain ⟨c, text, reversed⟩ := List.exists_cons_of_ne_nil nonempty
  rw [reversed, List.cons_append, if_neg]
  · split
    · exact ⟨_, rfl⟩
    · exact ⟨_, rfl⟩
    · exact ⟨_, rfl⟩
  · rintro (short | short)
    · cases short
    · obtain ⟨rfl, _⟩ := List.cons.inj short
      exact noSlash text reversed

end Path

end Pseudonym
