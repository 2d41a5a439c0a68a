import Mathlib.Data.List.Basic
import Pseudonym.Strip

/-!
# Stripping is exact

A class consists of debug data, each piece at its place, and of the rest. `ClassFile.Holds` says
which pieces a class holds, `ClassFile.bare` is the rest, and the two together say all about a class
(`ClassFile.eq_of_holds`). So what stripping should do can be stated without saying how:

    d = s.strip c  ↔  d.bare = c.bare ∧ ∀ x, d.Holds x ↔ c.Holds x ∧ s.removes x = false.

The place of a line number is its index among the instructions. Line numbers go all together or not
at all, so no other one moves, and the other instructions, which are part of the rest, keep their
order. A signature of a local variable goes with signatures, and with the variable it belongs to.
-/

namespace Pseudonym

/-! ### Debug data -/

/-- A place where a generic signature may stand. -/
inductive SignaturePlace where
  /-- The class itself. -/
  | itself
  | field (index : Nat)
  | component (index : Nat)
  | method (index : Nat)
  /-- A local variable of a method. -/
  | variable (method index : Nat)
deriving DecidableEq, Repr

/-- A piece of debug data, with the place where it stands. -/
inductive DebugDatum where
  | sourceFile (name : String)
  | signature (place : SignaturePlace) (text : String)
  /-- A line number among the instructions of a method. -/
  | line (method index : Nat) (line label : UInt32)
  /-- An entry of the table of local variables, less its signature. -/
  | variable (method index : Nat) (entry : LocalVariable)
deriving DecidableEq, Repr

/-- The pieces of debug data that are selected. -/
def StripConfig.removes (s : StripConfig) : DebugDatum → Bool
  | .sourceFile _ => s.sourceFile
  | .signature (.variable _ _) _ => s.signatures || s.localVariables
  | .signature _ _ => s.signatures
  | .line .. => s.lineNumbers
  | .variable .. => s.localVariables

def LocalVariable.bare (v : LocalVariable) : LocalVariable := { v with signature := none }

def Field.bare (c : Field) : Field := { c with signature := none }

def RecordComponent.bare (c : RecordComponent) : RecordComponent := { c with signature := none }

/-- A method less its debug data. -/
def Method.bare (c : Method) : Method :=
  { c with
    signature := none
    instructions := c.instructions.filter (!·.isLine)
    localVariables := [] }

namespace ClassFile

/-- A class less its debug data. -/
def bare (c : ClassFile) : ClassFile :=
  { c with
    sourceFile := none
    signature := none
    recordComponents := c.recordComponents.map RecordComponent.bare
    fields := c.fields.map Field.bare
    methods := c.methods.map Method.bare }

/-- The local variable at a place. -/
def local? (c : ClassFile) (method index : Nat) : Option LocalVariable :=
  c.methods[method]?.bind (·.localVariables[index]?)

/-- The signature at a place. -/
def signature? (c : ClassFile) : SignaturePlace → Option String
  | .itself => c.signature
  | .field i => c.fields[i]?.bind (·.signature)
  | .component i => c.recordComponents[i]?.bind (·.signature)
  | .method i => c.methods[i]?.bind (·.signature)
  | .variable i j => (c.local? i j).bind (·.signature)

/-- Whether a class holds a piece of debug data. -/
def Holds (c : ClassFile) : DebugDatum → Prop
  | .sourceFile name => c.sourceFile = some name
  | .signature place text => c.signature? place = some text
  | .line i j line label => c.methods[i]?.bind (·.instructions[j]?) = some (.line line label)
  | .variable i j entry => (c.local? i j).map LocalVariable.bare = some entry

end ClassFile

/-! ### Debug data and the rest make a class -/

/-- Lists with equal images agree if their members do, place by place. -/
theorem eq_of_map_eq {α β : Type} {f : α → β} {xs ys : List α} (images : xs.map f = ys.map f)
    (h : ∀ (i : Nat) x y, xs[i]? = some x → ys[i]? = some y → f x = f y → x = y) : xs = ys := by
  apply List.ext_getElem?
  intro i
  have image : (xs[i]?).map f = (ys[i]?).map f := by
    rw [← List.getElem?_map, ← List.getElem?_map, images]
  cases hx : xs[i]? with
  | none =>
    cases hy : ys[i]? with
    | none => rfl
    | some y => simp [hx, hy] at image
  | some x =>
    cases hy : ys[i]? with
    | none => simp [hx, hy] at image
    | some y =>
      have same : f x = f y := by simpa [hx, hy] using image
      rw [h i x y hx hy same]

/-- A list is known from the members with a property, each at its index, and from the others in
order. -/
theorem eq_of_filter_eq {α : Type} {p : α → Bool} {xs ys : List α}
    (others : xs.filter (!p ·) = ys.filter (!p ·))
    (places : ∀ (i : Nat) x, p x = true → (xs[i]? = some x ↔ ys[i]? = some x)) : xs = ys := by
  induction xs generalizing ys with
  | nil =>
    cases ys with
    | nil => rfl
    | cons y ys =>
      by_cases hy : p y = true
      · have there : ([] : List α)[0]? = some y := (places 0 y hy).2 rfl
        cases there
      · simp [hy] at others
  | cons x xs ih =>
    cases ys with
    | nil =>
      by_cases hx : p x = true
      · have there : ([] : List α)[0]? = some x := (places 0 x hx).1 rfl
        cases there
      · simp [hx] at others
    | cons y ys =>
      have tails : ∀ (i : Nat) z, p z = true → (xs[i]? = some z ↔ ys[i]? = some z) :=
        fun i z hz => places (i + 1) z hz
      by_cases hx : p x = true
      · have head : (y :: ys)[0]? = some x := (places 0 x hx).1 rfl
        obtain rfl : y = x := Option.some.inj head
        rw [ih (by simpa [hx] using others) tails]
      · have hy : ¬ p y = true := by
          intro hy
          have head : (x :: xs)[0]? = some y := (places 0 y hy).2 rfl
          obtain rfl : x = y := Option.some.inj head
          exact hx hy
        have both : x = y ∧ xs.filter (!p ·) = ys.filter (!p ·) := by simpa [hx, hy] using others
        rw [both.1, ih both.2 tails]

theorem LocalVariable.eq_of_bare {v w : LocalVariable} (rest : v.bare = w.bare)
    (signature : v.signature = w.signature) : v = w := by
  cases v
  cases w
  simp_all [bare]

theorem Field.eq_of_bare {c d : Field} (rest : c.bare = d.bare)
    (signature : c.signature = d.signature) : c = d := by
  cases c
  cases d
  simp_all [bare]

theorem RecordComponent.eq_of_bare {c d : RecordComponent} (rest : c.bare = d.bare)
    (signature : c.signature = d.signature) : c = d := by
  cases c
  cases d
  simp_all [bare]

theorem Method.eq_of_bare {c d : Method} (rest : c.bare = d.bare)
    (signature : c.signature = d.signature) (locals : c.localVariables = d.localVariables)
    (lines : ∀ (i : Nat) line label,
      c.instructions[i]? = some (.line line label) ↔ d.instructions[i]? = some (.line line label)) :
    c = d := by
  have instructions : c.instructions = d.instructions := by
    refine eq_of_filter_eq (p := Instruction.isLine) (congrArg Method.instructions rest) ?_
    intro i instruction isLine
    cases instruction with
    | line line label => exact lines i line label
    | _ => cases isLine
  cases c
  cases d
  simp_all [bare]

namespace ClassFile

variable {c d : ClassFile}

theorem bind_of_getElem? {α β : Type} {xs : List α} {i : Nat} {x : α} (h : xs[i]? = some x)
    (k : α → Option β) : xs[i]?.bind k = k x := by
  rw [h, Option.bind_some]

/-- **A class is its debug data and the rest.** -/
theorem eq_of_holds (rest : c.bare = d.bare) (h : ∀ x, c.Holds x ↔ d.Holds x) : c = d := by
  have sourceFile : c.sourceFile = d.sourceFile := Option.ext fun name => h (.sourceFile name)
  have signature (place : SignaturePlace) : c.signature? place = d.signature? place :=
    Option.ext fun text => h (.signature place text)
  have own : c.signature = d.signature := signature .itself
  have locals (i j : Nat) :
      (c.local? i j).map LocalVariable.bare = (d.local? i j).map LocalVariable.bare :=
    Option.ext fun entry => h (.variable i j entry)
  have fields : c.fields = d.fields := by
    refine eq_of_map_eq (congrArg ClassFile.fields rest) fun i x y hx hy same => ?_
    refine Field.eq_of_bare same ?_
    have found := signature (.field i)
    rwa [signature?, signature?, bind_of_getElem? hx, bind_of_getElem? hy] at found
  have components : c.recordComponents = d.recordComponents := by
    refine eq_of_map_eq (congrArg ClassFile.recordComponents rest) fun i x y hx hy same => ?_
    refine RecordComponent.eq_of_bare same ?_
    have found := signature (.component i)
    rwa [signature?, signature?, bind_of_getElem? hx, bind_of_getElem? hy] at found
  have methods : c.methods = d.methods := by
    refine eq_of_map_eq (congrArg ClassFile.methods rest) fun i x y hx hy same => ?_
    have atX (j : Nat) : c.local? i j = x.localVariables[j]? := bind_of_getElem? hx _
    have atY (j : Nat) : d.local? i j = y.localVariables[j]? := bind_of_getElem? hy _
    refine Method.eq_of_bare same ?_ ?_ ?_
    · have found := signature (.method i)
      rwa [signature?, signature?, bind_of_getElem? hx, bind_of_getElem? hy] at found
    · have entries : x.localVariables.map LocalVariable.bare =
          y.localVariables.map LocalVariable.bare := by
        apply List.ext_getElem?
        intro j
        rw [List.getElem?_map, List.getElem?_map, ← atX, ← atY, locals]
      refine eq_of_map_eq entries fun j v w hv hw same => LocalVariable.eq_of_bare same ?_
      have found := signature (.variable i j)
      rwa [signature?, signature?, atX, atY, hv, hw] at found
    · intro j line label
      have found := h (.line i j line label)
      rwa [Holds, Holds, bind_of_getElem? hx, bind_of_getElem? hy] at found
  clear h signature locals
  cases c
  cases d
  simp_all [bare]

end ClassFile

/-! ### What stripping leaves -/

namespace StripConfig

variable (s : StripConfig)

theorem keepSignature_eq_some_iff {signature : Option String} {text : String} :
    s.keepSignature signature = some text ↔ signature = some text ∧ s.signatures = false := by
  unfold keepSignature
  by_cases selected : s.signatures = true
  · simp [selected]
  · simp [selected]

theorem bare_stripMethod (c : Method) : (s.stripMethod c).bare = c.bare := by
  have others : (s.stripMethod c).instructions.filter (!·.isLine) =
      c.instructions.filter (!·.isLine) := by
    unfold stripMethod
    by_cases selected : s.lineNumbers = true
    · simp [selected]
    · simp [selected]
  unfold Method.bare
  rw [others]
  rfl

/-- Stripping leaves the rest as it is. -/
theorem bare_strip (c : ClassFile) : (s.strip c).bare = c.bare := by
  have fields : (c.fields.map s.stripField).map Field.bare = c.fields.map Field.bare := by
    rw [List.map_map]
    rfl
  have components : (c.recordComponents.map s.stripComponent).map RecordComponent.bare =
      c.recordComponents.map RecordComponent.bare := by
    rw [List.map_map]
    rfl
  have methods : (c.methods.map s.stripMethod).map Method.bare = c.methods.map Method.bare := by
    rw [List.map_map]
    exact List.map_congr_left fun d _ => s.bare_stripMethod d
  simp only [ClassFile.bare, strip, fields, components, methods]

theorem local?_strip (c : ClassFile) (i j : Nat) :
    (s.strip c).local? i j =
      if s.localVariables then none else (c.local? i j).map s.stripVariable := by
  simp only [ClassFile.local?, strip, List.getElem?_map]
  cases c.methods[i]? with
  | none => simp
  | some d =>
    simp only [Option.map_some, Option.bind_some, stripMethod]
    by_cases selected : s.localVariables = true
    · simp [selected]
    · simp [selected]

theorem holds_signature_strip (c : ClassFile) (place : SignaturePlace) (text : String) :
    (s.strip c).Holds (.signature place text) ↔
      c.Holds (.signature place text) ∧ s.removes (.signature place text) = false := by
  simp only [ClassFile.Holds]
  cases place with
  | itself => exact s.keepSignature_eq_some_iff
  | field i =>
    simp only [ClassFile.signature?, strip, List.getElem?_map, removes]
    cases c.fields[i]? with
    | none => simp
    | some d => exact s.keepSignature_eq_some_iff
  | component i =>
    simp only [ClassFile.signature?, strip, List.getElem?_map, removes]
    cases c.recordComponents[i]? with
    | none => simp
    | some d => exact s.keepSignature_eq_some_iff
  | method i =>
    simp only [ClassFile.signature?, strip, List.getElem?_map, removes]
    cases c.methods[i]? with
    | none => simp
    | some d => exact s.keepSignature_eq_some_iff
  | «variable» i j =>
    simp only [ClassFile.signature?, local?_strip, removes, Bool.or_eq_false_iff]
    by_cases selected : s.localVariables = true
    · simp [selected]
    · cases c.local? i j with
      | none => simp
      | some v => simpa [selected, stripVariable] using s.keepSignature_eq_some_iff

/-- **What is left of the debug data is what is not selected.** -/
theorem holds_strip (c : ClassFile) (x : DebugDatum) :
    (s.strip c).Holds x ↔ c.Holds x ∧ s.removes x = false := by
  cases x with
  | sourceFile name =>
    simp only [ClassFile.Holds, strip, removes]
    by_cases selected : s.sourceFile = true
    · simp [selected]
    · simp [selected]
  | signature place text => exact s.holds_signature_strip c place text
  | line i j line label =>
    simp only [ClassFile.Holds, strip, List.getElem?_map, removes]
    cases c.methods[i]? with
    | none => simp
    | some d =>
      simp only [Option.map_some, Option.bind_some, stripMethod]
      by_cases selected : s.lineNumbers = true
      · simp only [selected, if_true, Bool.true_eq_false, and_false, iff_false]
        intro found
        have kept := List.mem_filter.1 (List.mem_of_getElem? found)
        cases kept.2
      · simp [selected]
  | «variable» i j entry =>
    have same : LocalVariable.bare ∘ s.stripVariable = LocalVariable.bare := rfl
    simp only [ClassFile.Holds, local?_strip, removes]
    by_cases selected : s.localVariables = true
    · simp [selected]
    · simp [selected, same]

theorem eq_strip_iff {c d : ClassFile} :
    d = s.strip c ↔ d.bare = c.bare ∧ ∀ x, d.Holds x ↔ c.Holds x ∧ s.removes x = false := by
  constructor
  · rintro rfl
    exact ⟨s.bare_strip c, s.holds_strip c⟩
  · rintro ⟨rest, held⟩
    apply ClassFile.eq_of_holds
    · rw [rest, bare_strip]
    · intro x
      rw [held, holds_strip]

/-- A class stays as it is if it holds nothing that is selected. -/
theorem strip_eq_self_iff {c : ClassFile} :
    s.strip c = c ↔ ∀ x, c.Holds x → s.removes x = false := by
  rw [eq_comm, eq_strip_iff]
  constructor
  · rintro ⟨-, held⟩ x hx
    exact ((held x).1 hx).2
  · intro kept
    exact ⟨rfl, fun x => ⟨fun hx => ⟨hx, kept x hx⟩, And.left⟩⟩

theorem strip_strip (c : ClassFile) : s.strip (s.strip c) = s.strip c := by
  rw [strip_eq_self_iff]
  intro x held
  exact ((s.holds_strip c x).1 held).2

/-! ### Whether there is anything to remove -/

theorem keepSignature_eq_self_iff {signature : Option String} :
    s.keepSignature signature = signature ↔ (s.signatures = true → signature = none) := by
  unfold keepSignature
  by_cases selected : s.signatures = true
  · simp [selected, eq_comm]
  · simp [selected]

theorem map_eq_self_iff {α : Type} {f : α → α} {xs : List α} :
    xs.map f = xs ↔ ∀ x ∈ xs, f x = x := by
  constructor
  · intro same x hx
    exact List.map_inj_left.1 (same.trans xs.map_id.symm) x hx
  · intro same
    exact (List.map_congr_left same).trans xs.map_id

theorem stripVariable_eq_self_iff {v : LocalVariable} :
    s.stripVariable v = v ↔ (s.signatures = true → v.signature = none) := by
  rw [← keepSignature_eq_self_iff]
  cases v
  simp [stripVariable]

theorem stripField_eq_self_iff {c : Field} :
    s.stripField c = c ↔ (s.signatures = true → c.signature = none) := by
  rw [← keepSignature_eq_self_iff]
  cases c
  simp [stripField]

theorem stripComponent_eq_self_iff {c : RecordComponent} :
    s.stripComponent c = c ↔ (s.signatures = true → c.signature = none) := by
  rw [← keepSignature_eq_self_iff]
  cases c
  simp [stripComponent]

theorem stripMethod_eq_self_iff {c : Method} :
    s.stripMethod c = c ↔ s.touchesMethod c = false := by
  have locals :
      (if s.localVariables then [] else c.localVariables.map s.stripVariable) = c.localVariables ↔
        (s.localVariables = true → c.localVariables = []) ∧
        (s.signatures = true → ∀ v ∈ c.localVariables, v.signature = none) := by
    by_cases selected : s.localVariables = true
    · simp only [selected, if_true, eq_comm (a := []), true_implies, iff_self_and]
      intro none _ v hv
      rw [none] at hv
      cases hv
    · simp only [selected, Bool.false_eq_true, if_false, map_eq_self_iff,
        stripVariable_eq_self_iff, false_implies, true_and]
      exact ⟨fun h signatures v hv => h v hv signatures, fun h v hv signatures => h signatures v hv⟩
  have lines :
      (if s.lineNumbers then c.instructions.filter (!·.isLine) else c.instructions) =
          c.instructions ↔
        (s.lineNumbers = true → ∀ i ∈ c.instructions, i.isLine = false) := by
    by_cases selected : s.lineNumbers = true
    · simp [selected, List.filter_eq_self]
    · simp [selected]
  have parts : s.stripMethod c = c ↔
      s.keepSignature c.signature = c.signature ∧
      (if s.localVariables then [] else c.localVariables.map s.stripVariable) = c.localVariables ∧
      (if s.lineNumbers then c.instructions.filter (!·.isLine) else c.instructions) =
        c.instructions := by
    cases c
    simp only [stripMethod, Method.mk.injEq, true_and]
    exact ⟨fun ⟨own, lines, locals⟩ => ⟨own, locals, lines⟩,
      fun ⟨own, locals, lines⟩ => ⟨own, lines, locals⟩⟩
  rw [parts, keepSignature_eq_self_iff, locals, lines]
  simp only [touchesMethod, Bool.or_eq_false_iff, Bool.and_eq_false_imp,
    Option.isSome_eq_false_iff, Option.isNone_iff_eq_none, List.any_eq_false, Bool.not_eq_true,
    Bool.not_eq_eq_eq_not, Bool.not_false, List.isEmpty_iff]
  constructor
  · rintro ⟨own, ⟨cleared, ofVariables⟩, lines⟩
    exact ⟨⟨fun h => ⟨own h, ofVariables h⟩, cleared⟩, lines⟩
  · rintro ⟨⟨signatures, cleared⟩, lines⟩
    exact ⟨fun h => (signatures h).1, ⟨cleared, fun h => (signatures h).2⟩, lines⟩

/-- There is nothing to remove from a class that stays as it is. -/
theorem touches_eq_false_iff {c : ClassFile} : s.touches c = false ↔ s.strip c = c := by
  have parts : s.strip c = c ↔
      (s.sourceFile = true → c.sourceFile = none) ∧
      (s.signatures = true → c.signature = none) ∧
      (∀ d ∈ c.fields, s.signatures = true → d.signature = none) ∧
      (∀ d ∈ c.recordComponents, s.signatures = true → d.signature = none) ∧
      ∀ d ∈ c.methods, s.touchesMethod d = false := by
    simp only [← stripField_eq_self_iff, ← stripComponent_eq_self_iff, ← keepSignature_eq_self_iff,
      ← stripMethod_eq_self_iff, ← map_eq_self_iff]
    cases c
    simp only [strip, ClassFile.mk.injEq, ite_eq_right_iff, true_and]
    constructor
    · rintro ⟨own, file, components, fields, methods⟩
      exact ⟨fun h => (file h).symm, own, fields, components, methods⟩
    · rintro ⟨file, own, fields, components, methods⟩
      exact ⟨own, fun h => (file h).symm, components, fields, methods⟩
  rw [parts]
  simp only [touches, Bool.or_eq_false_iff, Bool.and_eq_false_imp, Option.isSome_eq_false_iff,
    Option.isNone_iff_eq_none, List.any_eq_false, Bool.not_eq_true]
  constructor
  · rintro ⟨⟨file, signatures⟩, methods⟩
    exact ⟨file, fun h => (signatures h).1.1, fun d hd h => (signatures h).1.2 d hd,
      fun d hd h => (signatures h).2 d hd, methods⟩
  · rintro ⟨file, own, fields, components, methods⟩
    exact ⟨⟨file, fun h => ⟨⟨own h, fun d hd => fields d hd h⟩, fun d hd => components d hd h⟩⟩,
      methods⟩

/-- **Stripping is exact.** A class is stripped if the rest is unchanged and it holds what it held
and is not selected; there is something to remove if stripping changes the class; and what is
stripped has nothing more to remove. -/
theorem stripping_is_exact (c : ClassFile) :
    (∀ d, d = s.strip c ↔ d.bare = c.bare ∧ ∀ x, d.Holds x ↔ c.Holds x ∧ s.removes x = false) ∧
    (s.touches c = true ↔ s.strip c ≠ c) ∧
    s.touches (s.strip c) = false ∧ s.strip (s.strip c) = s.strip c := by
  refine ⟨fun d => s.eq_strip_iff, ?_, ?_, s.strip_strip c⟩
  · rw [Ne, ← touches_eq_false_iff, Bool.not_eq_false]
  · rw [touches_eq_false_iff, strip_strip]

end StripConfig

end Pseudonym
