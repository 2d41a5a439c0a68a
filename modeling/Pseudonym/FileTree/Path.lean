import Pseudonym.Text.Cut
import Pseudonym.Text.Utf8

/-!
# Paths

A path is a text, and its parts stand between slashes. A part that is empty or a single point stays
where it is, and a path that starts with a slash starts at the root.

The directories around a path are prefixes of its text. They are found from its end, so paths are
reversed for it: `aroundReversed?` takes one part off, and `ancestors` goes on as long as there is
anything to take off.
-/

namespace Pseudonym.Path

open Text

def parts (path : String) : List String := (path.toList.splitOn '/').map String.ofList

/-- Whether a part stays where it is. -/
def isIdle (part : String) : Bool := part == "" || part == "."

/-- The most bytes that a part of a path may have. -/
def maxPartLength : Nat := 255

/-- The most bytes that a path may have. -/
def maxLength : Nat := 4095

/-- Whether a part of a path is too long. -/
def isLongPart (part : String) : Bool := maxPartLength < byteLength part.toList

/-- Whether a path is too long. -/
def isLong (path : String) : Bool := maxLength < byteLength path.toList

/-- Whether a path ends with a slash. Such a path can only be meant for a directory. -/
def endsWithSlash (path : String) : Bool := path.toList.getLast? == some '/'

/-- A path below a directory. A path from the root is not below any. -/
def join (directory path : String) : String :=
  if path.toList.head? = some '/' || directory = "" then path
  else if endsWithSlash directory then directory ++ path
  else directory ++ "/" ++ path

/-! ### The directories around a path -/

/-- A reversed path without idle parts at its end. -/
def trimReversed : List Char → List Char
  | '/' :: c :: rest => trimReversed (c :: rest)
  | '.' :: '/' :: rest => trimReversed ('/' :: rest)
  | path => path

theorem length_trimReversed_le (path : List Char) : (trimReversed path).length ≤ path.length := by
  fun_induction trimReversed path with
  | case1 c rest ih => simp only [List.length_cons] at ih ⊢; omega
  | case2 rest ih => simp only [List.length_cons] at ih ⊢; omega
  | case3 => exact Nat.le_refl _

/-- The directory that a path is in, both reversed. Nothing is around the root, or around a path
without parts. -/
def aroundReversed? (path : List Char) : Option (List Char) :=
  if trimReversed path = [] ∨ trimReversed path = ['/'] then none
  else
    match (trimReversed path).dropWhile (· != '/') with
    | [] => some []
    | ['/'] => some ['/']
    | _ :: before => some (trimReversed before)

theorem length_of_aroundReversed? {path around : List Char}
    (h : aroundReversed? path = some around) : around.length < path.length := by
  refine Nat.lt_of_lt_of_le ?_ (length_trimReversed_le path)
  unfold aroundReversed? at h
  generalize trimReversed path = trimmed at h ⊢
  have dropped := (List.dropWhile_sublist (· != '/') (l := trimmed)).length_le
  split at h
  · cases h
  · rename_i ends
    split at h
    · cases h
      exact List.length_pos_iff.2 fun empty => ends (Or.inl empty)
    · rename_i slash
      cases h
      refine Nat.lt_of_not_le fun short => ends (Or.inr ?_)
      have same := (List.dropWhile_sublist (· != '/') (l := trimmed)).eq_of_length_le
        (by rw [slash]; exact short)
      rw [← same, slash]
    · rename_i c before _ rest
      cases h
      have shorter := length_trimReversed_le before
      rw [rest, List.length_cons] at dropped
      omega

/-- The directory that a path is in. -/
def parent? (path : String) : Option String :=
  (aroundReversed? path.toList.reverse).map fun around => String.ofList around.reverse

/-- A path and the directories around it that are named in it, from the inside out, all reversed. -/
def ancestorsReversed (path : List Char) : List (List Char) :=
  match _h : aroundReversed? path with
  | none => []
  | some around => path :: ancestorsReversed around
termination_by path.length
decreasing_by exact length_of_aroundReversed? _h

/-- A path and the directories around it that are named in it, from the inside out. -/
def ancestors (path : String) : List String :=
  (ancestorsReversed path.toList.reverse).map fun path => String.ofList path.reverse

/-! ### Names of files -/

def fileName (path : String) : String := (parts path).getLast?.getD ""

def isHidden (path : String) : Bool := (fileName path).toList.head? == some '.'

/-- What follows the last point in the name of a file, unless that point is its first character. -/
def extension? (path : String) : Option String :=
  match cutLast? (· == '.') (fileName path).toList with
  | none | some ([], _) => none
  | some (_, after) => some (String.ofList after)

end Pseudonym.Path
