import Pseudonym.Mapping.Table
import Pseudonym.Proofs.Descriptor.ReadBack
import Pseudonym.Proofs.Generated

/-!
# What stands for a class after renaming

A class is named in four ways: by its name alone, by a name in a place where an array may stand as
well, in a descriptor of either kind, in a method descriptor. A `Naming` is a text in one of these
roles and `Naming.read` is what it spells. Renaming a naming is renaming what it spells,

    p.read = .ok u  →  (p.withText s).read = .ok (u.renamed f),

where `s` is the answer for `p` and `f` is what becomes of each class (`read_answer`). So nothing
about a naming changes but the classes in it, and no class in it is left out. This needs new names
that a descriptor can hold: a name with a semicolon in it would end a type too early.
-/

namespace Pseudonym

open Descriptor

/-- What a text that names classes spells. -/
inductive Reading where
  | class (name : String)
  | type (t : TypeDescriptor)
  | method (t : MethodDescriptor)
deriving DecidableEq, Repr

namespace Reading

def toText : Reading → List Char
  | .class name => name.toList
  | type t => t.toText
  | method t => t.toText

/-- The classes that are named, in the order of the text. -/
def names : Reading → List String
  | .class name => [name]
  | type t => t.elementName?.toList
  | method t => t.names

/-- The same type with other classes. Primitive types, array dimensions and the number of
parameters stay. -/
def renamed (f : String → String) : Reading → Reading
  | .class name => .class (f name)
  | type t => type (t.renamed f)
  | method t => method (t.renamed f)

variable {f : String → String}

theorem names_renamed (u : Reading) : (u.renamed f).names = u.names.map f := by
  cases u with
  | «class» name => rfl
  | type t => rw [renamed, names, names, t.elementName?_renamed, Option.toList_map]
  | method t => exact t.names_renamed

/-- Renaming keeps readings apart if it keeps their classes apart. -/
theorem renamed_inj {u v : Reading} (hf : ∀ a ∈ u.names, ∀ b ∈ v.names, f a = f b → a = b)
    (h : u.renamed f = v.renamed f) : u = v := by
  cases u with
  | «class» name =>
    cases v with
    | «class» name' => rw [hf name (by simp [names]) name' (by simp [names]) (class.inj h)]
    | type t' | method t' => exact absurd h (by simp [renamed])
  | type t =>
    cases v with
    | type t' => rw [TypeDescriptor.renamed_inj hf (type.inj h)]
    | «class» name' | method t' => exact absurd h (by simp [renamed])
  | method t =>
    cases v with
    | method t' => rw [MethodDescriptor.renamed_inj hf (method.inj h)]
    | «class» name' | type t' => exact absurd h (by simp [renamed])

end Reading

/-- A place in which classes are named. -/
inductive Naming where
  /-- A class by its internal name. -/
  | class (name : String)
  /-- A class by its internal name, or an array by its descriptor. -/
  | type (name : String)
  /-- A descriptor of either kind. -/
  | descriptor (text : String)
  | methodDescriptor (text : String)
deriving DecidableEq, Repr

namespace Naming

/-- The question that renaming asks about the place. -/
def mention : Naming → Mention
  | .class name => .class name
  | type name => .type name
  | descriptor text => .descriptor text
  | methodDescriptor text => .methodDescriptor text

/-- The place with another text in it. -/
def withText (s : String) : Naming → Naming
  | .class _ => .class s
  | type _ => type s
  | descriptor _ => descriptor s
  | methodDescriptor _ => methodDescriptor s

theorem withText_inj {p : Naming} {s t : String} (h : p.withText s = p.withText t) : s = t := by
  cases p with
  | «class» name => exact class.inj h
  | type name => exact type.inj h
  | descriptor text => exact descriptor.inj h
  | methodDescriptor text => exact methodDescriptor.inj h

/-- The place with the answer in it. -/
def renamed (g : Mention → String) (p : Naming) : Naming := p.withText (g p.mention)

/-- What the text in the place spells. -/
def read : Naming → Except Error Reading
  | .class name => .ok (.class name)
  | type name =>
    if name.toList.head? = some '[' then .type <$> TypeDescriptor.parse name else .ok (.class name)
  | descriptor text =>
    if text.toList.head? = some '(' then .method <$> MethodDescriptor.parse text
    else .type <$> TypeDescriptor.parse text
  | methodDescriptor text => .method <$> MethodDescriptor.parse text

/-- The classes that are named in the place, as far as it can be read. -/
def names (p : Naming) : List String := p.read.toOption.elim [] Reading.names

/-- A place is what it spells, written. -/
theorem toText_of_read {p : Naming} {u : Reading} (h : p.read = .ok u) :
    p.mention.text.toList = u.toText := by
  have type {d : String} {u : Reading} (h : Reading.type <$> TypeDescriptor.parse d = .ok u) :
      d.toList = u.toText := by
    obtain ⟨t, parsed, rfl⟩ := map_eq_ok_iff.1 h
    exact (toText_of_parse parsed).1
  have method {d : String} {u : Reading} (h : Reading.method <$> MethodDescriptor.parse d = .ok u) :
      d.toList = u.toText := by
    obtain ⟨t, parsed, rfl⟩ := map_eq_ok_iff.1 h
    obtain ⟨parameters, read⟩ := MethodDescriptor.parse_eq_ok_iff.1 parsed
    have whole := toText_of_scanMethod read
    rwa [parameters] at whole
  cases p with
  | «class» name => rw [← Except.ok.inj h]; rfl
  | type name =>
    rw [read] at h
    split at h
    · exact type h
    · rw [← Except.ok.inj h]; rfl
  | descriptor text =>
    rw [read] at h
    split at h
    · exact method h
    · exact type h
  | methodDescriptor text => exact method h

/-! ### Other classes in place -/

theorem head?_toText_renamed (g : String → String) (t : TypeDescriptor) :
    (t.renamed g).toText.head? = t.toText.head? := by
  cases t with
  | void => rfl
  | value t =>
    obtain ⟨dimensions, element⟩ := t
    cases dimensions with
    | zero => cases element <;> rfl
    | succ n => rfl

/-- Whether a name stays or becomes one that a class can have. -/
def Possible (g : String → String) (name : String) : Prop := g name = name ∨ IsClassName (g name)

section

variable {g : String → String} {d : String}

theorem Possible.isClassName {name : String} (new : Possible g name) (old : IsClassName name) :
    IsClassName (g name) := by
  rcases new with same | new
  · rwa [same]
  · exact new

/-- A type with possible names in it is read as it was written. -/
theorem parse_renamed_of_type {t : TypeDescriptor} (parsed : TypeDescriptor.parse d = .ok t)
    (hg : ∀ name ∈ t.elementName?.toList, Possible g name) :
    TypeDescriptor.parse (String.ofList (t.renamed g).toText) = .ok (t.renamed g) :=
  TypeDescriptor.parse_renamed fun name hn =>
    (hg name hn).isClassName (TypeDescriptor.isClassName_of_parse parsed name hn)

/-- A method descriptor with possible names in it is read as it was written. -/
theorem parse_renamed_of_method {t : MethodDescriptor} (parsed : MethodDescriptor.parse d = .ok t)
    (hg : ∀ name ∈ t.names, Possible g name) :
    MethodDescriptor.parse (String.ofList (t.renamed g).toText) = .ok (t.renamed g) :=
  MethodDescriptor.parse_renamed fun name hn =>
    (hg name hn).isClassName (MethodDescriptor.isClassName_of_parse parsed name hn)

end

/-- With possible names in it, the place spells the same type with these names. -/
theorem read_withText {p : Naming} {u : Reading} {g : String → String} (h : p.read = .ok u)
    (hg : ∀ name ∈ u.names, Possible g name) :
    (p.withText (String.ofList (u.renamed g).toText)).read = .ok (u.renamed g) := by
  cases p with
  | «class» name =>
    obtain rfl := Except.ok.inj h
    simp [withText, read, Reading.renamed, Reading.toText]
  | type name =>
    rw [read] at h
    split at h
    · next array =>
      obtain ⟨t, parsed, rfl⟩ := map_eq_ok_iff.1 h
      rw [(toText_of_parse parsed).1] at array
      rw [withText, read, Reading.renamed, Reading.toText, String.toList_ofList,
        head?_toText_renamed, if_pos array, parse_renamed_of_type parsed hg]
      rfl
    · next single =>
      obtain rfl := Except.ok.inj h
      have kept : (g name).toList.head? ≠ some '[' := by
        rcases hg name (by simp [Reading.names]) with same | new
        · rwa [same]
        · exact fun head => new.notMem (by decide) (List.mem_of_head? head)
      rw [withText, read, Reading.renamed, Reading.toText, String.ofList_toList, if_neg kept]
  | descriptor text =>
    rw [read] at h
    split at h
    · obtain ⟨t, parsed, rfl⟩ := map_eq_ok_iff.1 h
      rw [withText, read, Reading.renamed, Reading.toText, parse_renamed_of_method parsed hg, String.toList_ofList]
      rfl
    · next other =>
      obtain ⟨t, parsed, rfl⟩ := map_eq_ok_iff.1 h
      rw [(toText_of_parse parsed).1] at other
      rw [withText, read, Reading.renamed, Reading.toText, String.toList_ofList,
        head?_toText_renamed, if_neg other, parse_renamed_of_type parsed hg]
      rfl
  | methodDescriptor text =>
    obtain ⟨t, parsed, rfl⟩ := map_eq_ok_iff.1 h
    rw [withText, read, Reading.renamed, Reading.toText, parse_renamed_of_method parsed hg]
    rfl

end Naming

/-! ### New names that descriptors can hold -/

namespace Markers

variable {m : Markers}

theorem isIllegalInName_of_isTokenChar {c : Char} (h : isTokenChar c = true) :
    isIllegalInName c = false := by
  rw [← Bool.not_eq_true]
  intro illegal
  simp only [isIllegalInName, Bool.or_eq_true, beq_iff_eq] at illegal
  rcases illegal with (((((rfl | rfl) | rfl) | rfl) | rfl) | rfl) | rfl
  all_goals exact absurd h (by decide)

/-- A token can stand for a class in a descriptor. -/
theorem isClassName_of_encode {name token : String} {isClass : Bool}
    (h : m.encode name isClass = .ok token) : IsClassName token := by
  obtain ⟨_, rfl⟩ := encode_eq_ok_iff.1 h
  constructor
  · rw [String.toList_ofList, encodeText, List.append_assoc]
    exact List.append_ne_nil_of_left_ne_nil m.wellFormed.opening_ne_nil _
  · intro c hc
    rw [String.toList_ofList] at hc
    rcases m.mem_encodeText hc with letter | rfl
    · exact isIllegalInName_of_isTokenChar letter
    · decide

end Markers

namespace Mapping

/-- What a class is called after renaming: its new name, or its own if there is none. -/
def classAfter (mapping : Mapping) (name : String) : String :=
  match mapping.className name with
  | .ok (some new) => new
  | _ => name

/-- All new names of classes are names that a descriptor can hold. -/
def IsLegal (mapping : Mapping) : Prop :=
  ∀ name new, mapping.className name = .ok (some new) → IsClassName new

theorem IsLegal.classAfter {mapping : Mapping} (h : mapping.IsLegal) (name : String) :
    mapping.classAfter name = name ∨ IsClassName (mapping.classAfter name) := by
  unfold Mapping.classAfter
  split
  · next new found => exact Or.inr (h name new found)
  · exact Or.inl rfl

theorem isLegal_table {t : MappingTable}
    (h : ∀ (old new : String), t.classes[old]? = some new → IsClassName new) :
    t.mapping.IsLegal :=
  fun old new found => h old new (Except.ok.inj found)

theorem isLegal_generated {symbols : SymbolSource} {m : Markers} {reserved : List String} :
    (generated symbols m reserved).IsLegal :=
  fun _ _ found => Markers.isClassName_of_encode (encode_of_tokenIn found)

end Mapping

/-! ### Answers -/

namespace Renamer

variable {r : Renamer}

theorem answer_class (name : String) : r.answer (.class name) = r.mapping.classAfter name := by
  rw [answer, rename, className, outcome_replace, Mapping.classAfter]
  rcases r.mapping.className name with refused | _ | new
  · rfl
  · rfl
  · rfl

/-- A text spells what was read with every class renamed, none of which was refused. -/
def Respells (r : Renamer) (found : Except Error Reading) (s : String) : Prop :=
  ∃ u, found = .ok u ∧
    (∀ name ∈ u.names, (r.className name).outcome = .ok (r.mapping.classAfter name)) ∧
      s = String.ofList (u.renamed r.mapping.classAfter).toText

theorem respells_class {name s : String} :
    (r.className name).outcome = .ok s ↔ r.Respells (.ok (.class name)) s := by
  constructor
  · intro found
    have known : r.mapping.classAfter name = s :=
      (answer_class name).symm.trans (r.agrees_className name s found)
    refine ⟨.class name, rfl, ?_, ?_⟩
    · intro name' hn
      rw [List.mem_singleton.1 hn, found, known]
    · rw [Reading.renamed, Reading.toText, String.ofList_toList, known]
  · rintro ⟨u, same, answered, rfl⟩
    obtain rfl := Except.ok.inj same
    rw [answered name (by simp [Reading.names]), Reading.renamed, Reading.toText,
      String.ofList_toList]

theorem respells_typeDescriptor {d s : String} (hd : d.toList.head? ≠ some '(') :
    (r.rename (.descriptor d)).outcome = .ok s ↔
      r.Respells (.type <$> TypeDescriptor.parse d) s := by
  simp only [outcome_typeDescriptor hd, answer_class]
  constructor
  · rintro ⟨t, parsed, rest⟩
    exact ⟨.type t, map_eq_ok_iff.2 ⟨t, parsed, rfl⟩, rest⟩
  · rintro ⟨u, read, rest⟩
    obtain ⟨t, parsed, rfl⟩ := map_eq_ok_iff.1 read
    exact ⟨t, parsed, rest⟩

theorem respells_methodDescriptor {d s : String} :
    (r.rename (.methodDescriptor d)).outcome = .ok s ↔
      r.Respells (.method <$> MethodDescriptor.parse d) s := by
  simp only [outcome_methodDescriptor, answer_class]
  constructor
  · rintro ⟨t, parameters, read, rest⟩
    have parsed : MethodDescriptor.parse d = .ok t :=
      MethodDescriptor.parse_eq_ok_iff.2 ⟨parameters, read⟩
    exact ⟨.method t, map_eq_ok_iff.2 ⟨t, parsed, rfl⟩, rest⟩
  · rintro ⟨u, read, rest⟩
    obtain ⟨t, parsed, rfl⟩ := map_eq_ok_iff.1 read
    obtain ⟨parameters, read⟩ := MethodDescriptor.parse_eq_ok_iff.1 parsed
    exact ⟨t, parameters, read, rest⟩

/-- **What stands for a naming spells the same with every class renamed.** -/
theorem respells_naming {p : Naming} {s : String} :
    (r.rename p.mention).outcome = .ok s ↔ r.Respells p.read s := by
  cases p with
  | «class» name => exact respells_class
  | type name =>
    rw [Naming.mention, rename, Naming.read]
    split
    · next array => exact respells_typeDescriptor (by simp [array])
    · exact respells_class
  | descriptor d =>
    rw [Naming.mention, Naming.read]
    split
    · next head =>
      rw [rename_descriptor_of_head head]
      exact respells_methodDescriptor
    · next head => exact respells_typeDescriptor head
  | methodDescriptor d => exact respells_methodDescriptor

/-- **Renaming a naming is renaming what it spells**, if new names can stand in descriptors. -/
theorem read_answer (hm : r.mapping.IsLegal) {p : Naming} {s : String}
    (h : (r.rename p.mention).outcome = .ok s) :
    ∃ u, p.read = .ok u ∧
      (∀ name ∈ u.names, (r.className name).outcome = .ok (r.mapping.classAfter name)) ∧
        (p.withText s).read = .ok (u.renamed r.mapping.classAfter) := by
  obtain ⟨u, read, answered, rfl⟩ := respells_naming.1 h
  exact ⟨u, read, answered, Naming.read_withText read fun name _ => hm.classAfter name⟩

end Renamer

end Pseudonym
