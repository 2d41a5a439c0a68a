import Pseudonym.FileTree.Path

/-!
# Trees of files

A node is a file or a directory, and the entries of a directory are sorted by name. `Node.at?` finds
a node below another one, `Node.put` places one; what is placed is found again, and nothing else
changes (`at?_put`, `lookup_insertEntry_of_ne`).
-/

namespace Pseudonym

/-- A file or a directory. -/
inductive Node where
  | file (content : ByteArray)
  /-- A directory and what is in it, by name. -/
  | directory (entries : List (String × Node))

namespace Node

def isDirectory : Node → Bool
  | file _ => false
  | directory _ => true

def entries : Node → List (String × Node)
  | file _ => []
  | directory entries => entries

/-- Entries with one more, or with another node under a name that is there. -/
def insertEntry (name : String) (node : Node) : List (String × Node) → List (String × Node)
  | [] => [(name, node)]
  | (other, n) :: entries =>
    if name = other then (name, node) :: entries
    else if name < other then (name, node) :: (other, n) :: entries
    else (other, n) :: insertEntry name node entries

theorem lookup_insertEntry (name : String) (node : Node) (entries : List (String × Node)) :
    (insertEntry name node entries).lookup name = some node := by
  fun_induction insertEntry name node entries with
  | case1 => simp
  | case2 => simp
  | case3 => simp
  | case4 other n entries h _ ih => simp [List.lookup_cons, beq_eq_false_iff_ne.2 h, ih]

theorem lookup_insertEntry_of_ne {name other : String} (h : other ≠ name) (node : Node)
    (entries : List (String × Node)) :
    (insertEntry name node entries).lookup other = entries.lookup other := by
  have apart := beq_eq_false_iff_ne.2 h
  fun_induction insertEntry name node entries with
  | case1 => simp [List.lookup_cons, apart]
  | case2 => simp [List.lookup_cons, apart]
  | case3 => simp [List.lookup_cons, apart]
  | case4 next n entries _ _ ih => simp only [List.lookup_cons, ih]

/-- The node that names lead to. -/
def at? : Node → List String → Option Node
  | node, [] => some node
  | node, name :: names => (node.entries.lookup name).bind (at? · names)

/-- The tree with a node in the place that names lead to. Directories on the way are made; a file on
the way stays in it. -/
def put : Node → List String → Node → Node
  | _, [], node => node
  | file content, _ :: _, _ => file content
  | directory entries, name :: names, node =>
    directory (insertEntry name (put ((entries.lookup name).getD (directory [])) names node) entries)

/-- **What is placed is found.** No file may be on the way. -/
theorem at?_put (tree : Node) (names : List String) (node : Node)
    (h : ∀ before, before <+: names → before ≠ names →
      ∀ content, tree.at? before ≠ some (file content)) :
    (tree.put names node).at? names = some node := by
  induction names generalizing tree with
  | nil => cases tree <;> rfl
  | cons name names ih =>
    cases tree with
    | file content => exact absurd rfl (h [] List.nil_prefix (by simp) content)
    | directory entries =>
      simp only [put, at?, Node.entries, lookup_insertEntry, Option.bind_some]
      refine ih _ fun before isBefore isLess content found => ?_
      cases inside : entries.lookup name with
      | none =>
        rw [inside] at found
        cases before with
        | nil => cases found
        | cons first rest => simp [at?, Node.entries] at found
      | some inner =>
        rw [inside] at found
        refine h (name :: before) (List.cons_prefix_cons.2 ⟨rfl, isBefore⟩) (by simpa using isLess)
          content ?_
        simpa [at?, Node.entries, inside] using found

mutual

/-- The files of a tree that stands at a path, with their paths. A directory comes with all that is
in it before the next entry. -/
def filesAt (path : String) : Node → List (String × ByteArray)
  | file content => [(path, content)]
  | directory entries => filesOfEntries path entries

/-- The files of some entries of a directory that stands at a path. -/
def filesOfEntries (path : String) : List (String × Node) → List (String × ByteArray)
  | [] => []
  | (name, node) :: entries => node.filesAt (Path.join path name) ++ filesOfEntries path entries

end

end Node

end Pseudonym
