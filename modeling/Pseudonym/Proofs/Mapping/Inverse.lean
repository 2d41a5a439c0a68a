import Mathlib.Data.List.Induction
import Mathlib.Data.List.Nodup
import Mathlib.Data.Prod.Lex
import Pseudonym.Proofs.Mapping.Table
import Pseudonym.Proofs.Outcome
import Pseudonym.Proofs.Text.Order

/-!
# The inverse of a table

A table is inverted by adding the ways back one after the other, in the order of the classes, up to
the first new name that leads back to a class already. What has been added so far leads back exactly
to the entries that were read (`getElem?_of_foldlM_addInverse`), so the run fails at the first entry
whose new name stands in an entry before it (`foldlM_addInverse_eq_error_iff`). For a table this
entry is determined by its look-ups (`IsFirstConflict.unique`):

    t.invertClasses = .error e  ↔  e = .mappingConflict name first second
                                     for the first conflict `name`, `first`, `second` of `t`.

A table does not know in which order its entries were added (`classes_ofEntries`).
-/

namespace Pseudonym

open Std (ExtTreeMap LawfulEqOrd ReflOrd)
open Text

namespace MappingTable

section

variable {entries : List (String × String)} {start inverse : ExtTreeMap String String}
  {t : MappingTable} {e : Error} {name first second old new : String}

theorem addInverse_eq_ok_iff {entry : String × String} :
    addInverse start entry = .ok inverse ↔
      start[entry.2]? = none ∧ start.insert entry.2 entry.1 = inverse := by
  unfold addInverse
  split
  · next first taken => simp [taken]
  · next free => simp [free]

theorem addInverse_eq_error_iff {entry : String × String} :
    addInverse start entry = .error e ↔
      ∃ first, start[entry.2]? = some first ∧ e = .mappingConflict entry.2 first entry.1 := by
  unfold addInverse
  split
  · next first taken => simp [taken, eq_comm]
  · next free => simp [free]

/-- Every entry of a run of additions leads back to its class, and what led back before still does. -/
theorem getElem?_of_foldlM_addInverse (h : entries.foldlM addInverse start = .ok inverse)
    (new old : String) :
    inverse[new]? = some old ↔ start[new]? = some old ∨ (old, new) ∈ entries := by
  induction entries generalizing start with
  | nil =>
    rw [List.foldlM_nil, pure_eq_ok_iff] at h
    simp [h]
  | cons entry entries ih =>
    rw [List.foldlM_cons, bind_eq_ok_iff] at h
    obtain ⟨next, added, h⟩ := h
    obtain ⟨free, rfl⟩ := addInverse_eq_ok_iff.1 added
    rw [ih h, ExtTreeMap.getElem?_insert, List.mem_cons, ← or_assoc]
    refine or_congr_left ?_
    split
    · next same =>
      obtain rfl := LawfulEqOrd.eq_of_compare same
      rw [free]
      simp [Prod.ext_iff, eq_comm]
    · next different =>
      have other : (old, new) ≠ entry := by
        rintro rfl
        exact different ReflOrd.compare_self
      simp [other]

/-- **The inverse of a table** leads from a name to a class exactly if the table gives the class
that name. -/
theorem getElem?_of_invertClasses (h : t.invertClasses = .ok inverse) (new old : String) :
    inverse[new]? = some old ↔ t.classes[old]? = some new := by
  rw [getElem?_of_foldlM_addInverse h, ExtTreeMap.mem_toList_iff_getElem?_eq_some]
  simp

/-- A table has an inverse only if no two classes get one name. -/
theorem inj_of_invertClasses (h : t.invertClasses = .ok inverse) {old old' new : String}
    (ho : t.classes[old]? = some new) (ho' : t.classes[old']? = some new) : old = old' := by
  rw [← getElem?_of_invertClasses h] at ho ho'
  exact Option.some.inj (ho.symm.trans ho')

/-! ### A run of additions -/

/-- What a run from the empty map leads back to. -/
theorem getElem?_of_run (h : entries.foldlM addInverse ∅ = .ok inverse) (new old : String) :
    inverse[new]? = some old ↔ (old, new) ∈ entries := by
  rw [getElem?_of_foldlM_addInverse h]
  simp

/-- The ways back can be added exactly if no new name occurs twice. -/
theorem exists_foldlM_addInverse_iff :
    (∃ inverse, entries.foldlM addInverse ∅ = .ok inverse) ↔ (entries.map Prod.snd).Nodup := by
  induction entries using List.reverseRecOn with
  | nil => exact iff_of_true ⟨∅, rfl⟩ List.nodup_nil
  | append_singleton entries entry ih =>
    simp only [List.foldlM_append, List.foldlM_cons, List.foldlM_nil, bind_pure, bind_eq_ok_iff,
      addInverse_eq_ok_iff, List.map_append, List.map_cons, List.map_nil, List.nodup_append,
      List.nodup_singleton, List.mem_singleton, forall_eq, true_and, ← ih]
    constructor
    · rintro ⟨_, inverse, run, free, -⟩
      refine ⟨⟨inverse, run⟩, fun new listed same => ?_⟩
      subst same
      obtain ⟨other, given, repeated⟩ := List.mem_map.1 listed
      have back := (getElem?_of_run run entry.2 other.1).2 (repeated ▸ given)
      rw [free] at back
      cases back
    · rintro ⟨⟨inverse, run⟩, fresh⟩
      refine ⟨_, inverse, run, ?_, rfl⟩
      rw [Option.eq_none_iff_forall_ne_some]
      intro old back
      exact fresh _ (List.mem_map_of_mem ((getElem?_of_run run _ old).1 back)) rfl

/-- **A run fails at the first entry whose new name was given before.** -/
theorem foldlM_addInverse_eq_error_iff : entries.foldlM addInverse ∅ = .error e ↔
    ∃ before entry after first, entries = before ++ entry :: after ∧
      (before.map Prod.snd).Nodup ∧ (first, entry.2) ∈ before ∧
        e = .mappingConflict entry.2 first entry.1 := by
  constructor
  · intro failed
    induction entries using List.reverseRecOn with
    | nil => cases failed
    | append_singleton entries entry ih =>
      rw [List.foldlM_append] at failed
      cases run : entries.foldlM addInverse ∅ with
      | error e' =>
        obtain rfl : e' = e := by
          rw [run] at failed
          exact Except.error.inj failed
        obtain ⟨before, conflicting, after, first, rfl, distinct, given, rfl⟩ := ih run
        exact ⟨before, conflicting, after ++ [entry], first, by simp, distinct, given, rfl⟩
      | ok inverse =>
        have last : addInverse inverse entry = .error e := by
          rw [run] at failed
          exact (bind_pure _).symm.trans failed
        obtain ⟨first, taken, rfl⟩ := addInverse_eq_error_iff.1 last
        exact ⟨entries, entry, [], first, rfl, exists_foldlM_addInverse_iff.1 ⟨inverse, run⟩,
          (getElem?_of_run run _ _).1 taken, rfl⟩
  · rintro ⟨before, entry, after, first, rfl, distinct, given, rfl⟩
    obtain ⟨inverse, run⟩ := exists_foldlM_addInverse_iff.2 distinct
    have refused : addInverse inverse entry = .error (.mappingConflict entry.2 first entry.1) :=
      addInverse_eq_error_iff.2 ⟨first, (getElem?_of_run run _ _).2 given, rfl⟩
    rw [List.foldlM_append, run]
    simp only [bind, Except.bind, List.foldlM_cons, refused]

/-! ### Conflicts of a table -/

/-- Whether a table gives one name to two classes, the first of which comes before the second. -/
structure Shares (t : MappingTable) (name first second : String) : Prop where
  given_first : t.classes[first]? = some name
  given_second : t.classes[second]? = some name
  before : Before first second

/-- Whether a class is the least one to get a name that a lesser class gets, which is the only one
to do so. -/
structure IsFirstConflict (t : MappingTable) (name first second : String) : Prop
    extends t.Shares name first second where
  least {name' first' second' : String} (shares : t.Shares name' first' second') :
    ¬ Before second' second
  only {other : String} (shares : t.Shares name other second) : other = first

theorem IsFirstConflict.unique {name' first' second' : String}
    (h : t.IsFirstConflict name first second) (h' : t.IsFirstConflict name' first' second') :
    name = name' ∧ first = first' ∧ second = second' := by
  obtain rfl : second = second' := by
    rcases lt_trichotomy second second' with less | same | greater
    · exact absurd (before_iff.2 less) (h'.least h.toShares)
    · exact same
    · exact absurd (before_iff.2 greater) (h.least h'.toShares)
  obtain rfl := Option.some.inj (h.given_second.symm.trans h'.given_second)
  exact ⟨rfl, h'.only h.toShares, rfl⟩

theorem mem_classes_toList : (old, new) ∈ t.classes.toList ↔ t.classes[old]? = some new :=
  ExtTreeMap.mem_toList_iff_getElem?_eq_some

/-- The entries are listed in the order of their classes. -/
theorem pairwise_before_toList : t.classes.toList.Pairwise fun a b => Before a.1 b.1 :=
  ExtTreeMap.ordered_keys_toList.imp compare_eq_lt_iff_before.1

/-- The first entry whose new name was given before is the first conflict. -/
theorem isFirstConflict_of_split {before after : List (String × String)}
    {entry : String × String} (split : t.classes.toList = before ++ entry :: after)
    (distinct : (before.map Prod.snd).Nodup) (given : (first, entry.2) ∈ before) :
    t.IsFirstConflict entry.2 first entry.1 := by
  have ordered : (before ++ entry :: after).Pairwise fun a b => Before a.1 b.1 :=
    split ▸ pairwise_before_toList
  have listed {old new : String} (h : (old, new) ∈ before ++ entry :: after) :
      t.classes[old]? = some new := mem_classes_toList.1 (split ▸ h)
  -- What comes before the class of the entry stands in front of the entry.
  have front {old new : String} (h : t.classes[old]? = some new) (less : Before old entry.1) :
      (old, new) ∈ before := by
    have inside : (old, new) ∈ before ++ entry :: after := split ▸ mem_classes_toList.2 h
    rcases List.mem_append.1 inside with inside | behind
    · exact inside
    · rcases List.mem_cons.1 behind with rfl | behind
      · exact absurd less (List.lt_irrefl _)
      · have later := (List.pairwise_cons.1 (List.pairwise_append.1 ordered).2.1).1 _ behind
        exact absurd less (List.lt_asymm later)
  have apart {old old' new : String} (h : (old, new) ∈ before) (h' : (old', new) ∈ before) :
      old = old' := congrArg Prod.fst (List.inj_on_of_nodup_map distinct h h' rfl)
  exact {
    given_first := listed (List.mem_append_left _ given)
    given_second := listed (by simp)
    before := (List.pairwise_append.1 ordered).2.2 _ given _ List.mem_cons_self
    least := by
      intro name' first' second' shares less
      have inside := front shares.given_second less
      have inside' := front shares.given_first
        (before_iff.2 (lt_trans (before_iff.1 shares.before) (before_iff.1 less)))
      exact absurd (apart inside' inside ▸ shares.before) (List.lt_irrefl _)
    only := fun shares => apart (front shares.given_first shares.before) given }

theorem exists_isFirstConflict (h : t.invertClasses = .error e) :
    ∃ name first second, e = .mappingConflict name first second ∧
      t.IsFirstConflict name first second := by
  obtain ⟨before, entry, after, first, split, distinct, given, rfl⟩ :=
    foldlM_addInverse_eq_error_iff.1 h
  exact ⟨_, _, _, rfl, isFirstConflict_of_split split distinct given⟩

/-- **A table without an inverse is refused for its first conflict.** -/
theorem invertClasses_eq_error_iff : t.invertClasses = .error e ↔
    ∃ name first second, e = .mappingConflict name first second ∧
      t.IsFirstConflict name first second := by
  refine ⟨exists_isFirstConflict, ?_⟩
  rintro ⟨name, first, second, rfl, conflict⟩
  cases inverted : t.invertClasses with
  | ok inverse =>
    have same := inj_of_invertClasses inverted conflict.given_first conflict.given_second
    exact absurd (same ▸ conflict.before) (List.lt_irrefl _)
  | error e =>
    obtain ⟨name', first', second', rfl, conflict'⟩ := exists_isFirstConflict inverted
    obtain ⟨rfl, rfl, rfl⟩ := conflict'.unique conflict
    rfl

/-- A table has an inverse exactly if no two classes get one name. -/
theorem exists_invertClasses_iff : (∃ inverse, t.invertClasses = .ok inverse) ↔
    ∀ old old' new : String, t.classes[old]? = some new → t.classes[old']? = some new → old = old' := by
  constructor
  · rintro ⟨inverse, inverted⟩ old old' new
    exact inj_of_invertClasses inverted
  · intro injective
    cases inverted : t.invertClasses with
    | ok inverse => exact ⟨inverse, rfl⟩
    | error e =>
      obtain ⟨name, first, second, rfl, conflict⟩ := exists_isFirstConflict inverted
      have same := injective _ _ _ conflict.given_first conflict.given_second
      exact absurd (same ▸ conflict.before) (List.lt_irrefl _)

/-! ### The order of the entries -/

/-- Entries in the order of their classes. -/
def sorted (entries : List (String × String)) : List (String × String) :=
  entries.mergeSort fun a b => decide (toLex a ≤ toLex b)

/-- The entries of a table are sorted into the same list, in whatever order they come. -/
theorem sorted_of_perm (h : entries.Perm t.classes.toList) : sorted entries = t.classes.toList := by
  have ordered : t.classes.toList.Pairwise fun a b => decide (toLex a ≤ toLex b) = true := by
    refine pairwise_before_toList.imp fun {a b} before => decide_eq_true ?_
    exact Prod.Lex.toLex_le_toLex.2 (Or.inl (before_iff.1 before))
  refine List.Perm.eq_of_pairwise (fun a b _ _ le ge => ?_)
    (List.pairwise_mergeSort ?_ ?_ entries) ordered ((List.mergeSort_perm _ _).trans h)
  · exact toLex.injective (le_antisymm (of_decide_eq_true le) (of_decide_eq_true ge))
  · intro a b c le le'
    exact decide_eq_true (le_trans (of_decide_eq_true le) (of_decide_eq_true le'))
  · intro a b
    simpa using le_total (toLex a) (toLex b)

/-- Entries of different classes are all found, in whatever order they are added. -/
theorem getElem?_classes_ofEntries (distinct : (entries.map Prod.fst).Nodup) :
    (ofEntries (entries.map fun entry => .class entry.1 entry.2)).classes[old]? = some new ↔
      (old, new) ∈ entries := by
  induction entries using List.reverseRecOn with
  | nil => simp [ofEntries]
  | append_singleton entries entry ih =>
    obtain ⟨name, given⟩ := entry
    rw [List.map_append, List.nodup_append] at distinct
    have fresh : ∀ other, (name, other) ∉ entries := by
      intro other inside
      exact distinct.2.2 name (List.mem_map.2 ⟨_, inside, rfl⟩) name (by simp) rfl
    rw [ofEntries, List.map_append, List.foldl_append]
    show ((ofEntries _).insert ((MappingKey.class name).entry given)).get? (.class old) = _ ↔ _
    rw [get?_insert, List.mem_append, ← ih distinct.1]
    by_cases same : name = old
    · subst same
      simp [ih distinct.1, fresh, eq_comm]
    · have other : MappingKey.class name ≠ .class old := by simpa using same
      rw [if_neg other]
      have apart : (old, new) ∉ [(name, given)] := by simp [Ne.symm same]
      simp [get?, apart]

theorem classes_ofEntries (h : entries.Perm t.classes.toList) :
    (ofEntries (entries.map fun entry => .class entry.1 entry.2)).classes = t.classes := by
  have keys : (t.classes.toList.map Prod.fst).Nodup := by
    rw [List.Nodup, List.pairwise_map]
    exact ExtTreeMap.distinct_keys_toList.imp fun different same =>
      different (LawfulEqOrd.compare_eq_iff_eq.2 same)
  have distinct := (h.map Prod.fst).nodup_iff.2 keys
  refine ExtTreeMap.ext_getElem? fun old => Option.ext fun new => ?_
  rw [getElem?_classes_ofEntries distinct, h.mem_iff, mem_classes_toList]

end

/-! ### Inverting -/

/-- **A table is inverted exactly if no two classes get one name**, and then the inverse leads from
a name to a class exactly if the table gives the class that name. Otherwise the table is refused for
its first conflict: the least class to get a name that a lesser class gets, and that lesser class.
The order in which the entries were added, or are listed before they are sorted, makes no
difference. -/
theorem inverse_is_exact (t : MappingTable) :
    ((∃ inverse, t.invertClasses = .ok inverse) ↔ ∀ old old' new : String,
      t.classes[old]? = some new → t.classes[old']? = some new → old = old') ∧
    (∀ inverse, t.invertClasses = .ok inverse → ∀ new old : String,
      inverse[new]? = some old ↔ t.classes[old]? = some new) ∧
    (∀ e, t.invertClasses = .error e ↔ ∃ name first second,
      e = .mappingConflict name first second ∧ t.IsFirstConflict name first second) ∧
    ∀ entries : List (String × String), entries.Perm t.classes.toList →
      (ofEntries (entries.map fun entry => .class entry.1 entry.2)).invertClasses =
          t.invertClasses ∧
        (sorted entries).foldlM addInverse ∅ = t.invertClasses := by
  refine ⟨exists_invertClasses_iff, fun inverse => getElem?_of_invertClasses,
    fun e => invertClasses_eq_error_iff, fun entries listed => ⟨?_, ?_⟩⟩
  · rw [invertClasses, classes_ofEntries listed]
    rfl
  · rw [sorted_of_perm listed]
    rfl

/-- Two classes that share a name, listed against their order, and a table without one of them. -/
theorem inverse_is_exact_shared :
    let entries := [("c/C", "y/Y"), ("b/B", "x/X"), ("a/A", "x/X")]
    let t : MappingTable := .ofEntries [.class "b/B" "x/X", .class "c/C" "y/Y", .class "a/A" "x/X"]
    let t' : MappingTable := .ofEntries [.class "b/B" "x/X", .class "c/C" "y/Y"]
    t.invertClasses = .error (.mappingConflict "x/X" "a/A" "b/B") ∧
      t.IsFirstConflict "x/X" "a/A" "b/B" ∧
      (sorted entries).foldlM addInverse ∅ = t.invertClasses ∧
      ∃ inverse, t'.invertClasses = .ok inverse ∧ inverse["x/X"]? = some "b/B" ∧
        inverse["b/B"]? = none := by
  intro entries t t'
  have refused : t.invertClasses = .error (.mappingConflict "x/X" "a/A" "b/B") :=
    error?_eq_some_iff.1 (by decide +kernel)
  obtain ⟨_, _, conflicts, order⟩ := inverse_is_exact t
  obtain ⟨name, first, second, same, conflict⟩ := (conflicts _).1 refused
  obtain ⟨rfl, rfl, rfl⟩ := Error.mappingConflict.inj same
  have listed : entries.Perm t.classes.toList := by decide +kernel
  refine ⟨refused, conflict, (order entries listed).2, ?_⟩
  obtain ⟨_, leads, _⟩ := inverse_is_exact t'
  obtain ⟨inverse, found⟩ : ∃ inverse, t'.invertClasses.toOption = some inverse :=
    Option.isSome_iff_exists.1 (by decide +kernel)
  have inverted := toOption_eq_some_iff.1 found
  refine ⟨inverse, inverted, (leads inverse inverted _ _).2 (by decide +kernel), ?_⟩
  rw [Option.eq_none_iff_forall_ne_some]
  intro old back
  have given := (leads inverse inverted _ _).1 back
  have listed : ∀ entry ∈ t'.classes.toList, entry.2 ≠ "b/B" := by decide +kernel
  exact listed _ (mem_classes_toList.2 given) rfl

end MappingTable

end Pseudonym
