import Pseudonym.Proofs.Descriptor.Splice

/-!
# Renaming is the map on what descriptors spell

A renaming that cannot fail turns a descriptor that spells a type into one that spells the type with
the new names, and asks for each name once, in order; a descriptor that spells nothing is refused as
the reader refuses it (`Kind.MapsTypes`). A renaming that can fail meets the names in the order of
the text. It stops at the first failure, or at the first fault in the text, whichever it meets first
(`Kind.FailsInOrder`): the name of a parameter is met before anything behind the parameter is looked
at, the name of a result, or of a type that stands alone, only when nothing is wrong with the text.

The two kinds of descriptors differ in their types and in what is met early. What they have in common
is a `Kind`, and the theorem about both follows from the laws of a kind (`Kind.Laws`).
-/

namespace Pseudonym

open Descriptor Text Traced

namespace Descriptor

/-- Answers each name, and keeps a log of the names. -/
def logged (answer : String → Except Error String) (name : String) : Traced String String := do
  note name
  lift (answer name)

/-- What descriptors of one kind spell, and how names are exchanged in them. -/
structure Kind (T : Type) where
  parse : String → Except Error T
  /-- The names in a type, in order. -/
  names : T → List String
  /-- A type with other names. -/
  renamed : (String → String) → T → T
  rename : (String → Traced String String) → String → Traced String (Option String)
  /-- Renames in place. -/
  splice : (String → Traced String String) → String → OptionT (Traced String) (Option String)
  /-- The names in types with which a descriptor starts, and behind which nothing was looked at. -/
  Front : String → List String → Prop

def typeKind : Kind TypeDescriptor where
  parse := TypeDescriptor.parse
  names t := t.elementName?.toList
  renamed := TypeDescriptor.renamed
  rename := renameType
  splice := spliceType
  Front _ names := names = []

def methodKind : Kind MethodDescriptor where
  parse := MethodDescriptor.parse
  names := MethodDescriptor.names
  renamed := MethodDescriptor.renamed
  rename := renameMethod
  splice := spliceMethod
  Front d names := names = [] ∨ ∃ ts : List FieldType, ∃ rest,
    names = ts.filterMap (·.element.name?) ∧ (∀ name ∈ names, IsClassName name) ∧
      d.toList = '(' :: (ts.flatMap FieldType.toText ++ rest)

namespace Kind

variable {T : Type}

/-- The names that are met before any fault: those at the front, and all of them if there is no
fault. -/
def Meets (k : Kind T) (d : String) (names : List String) : Prop :=
  k.Front d names ∨ ∃ t, k.parse d = .ok t ∧ names = k.names t

/-- A renaming that cannot fail is the map on what descriptors spell. -/
structure MapsTypes (k : Kind T) (f : String → String) (d : String) : Prop where
  fails_iff : ∀ e, (k.rename (logged fun name => .ok (f name)) d).outcome = .error e ↔
    k.parse d = .error e
  asks : ∀ t, k.parse d = .ok t → (k.rename (logged fun name => .ok (f name)) d).log = k.names t
  maps : ∀ t, k.parse d = .ok t → ∃ answer,
    (k.rename (logged fun name => .ok (f name)) d).outcome = .ok answer ∧
      k.parse (answer.getD d) = .ok (k.renamed f t) ∧ (answer = none ↔ k.names t = [])
  /-- Names that stay leave the text as it is. -/
  keeps : ∀ t, k.parse d = .ok t → ∃ answer, (k.rename (logged .ok) d).outcome = .ok answer ∧
    answer.getD d = d ∧ (answer = none ↔ k.names t = [])

/-- A renaming stops at the first failure or fault that it meets, and so does renaming in place. -/
structure FailsInOrder (k : Kind T) (answer : String → Except Error String) (d : String) :
    Prop where
  first_failure : ∀ before name after e, k.Meets d (before ++ name :: after) →
    (∀ n ∈ before, ∃ new, answer n = .ok new) → answer name = .error e →
      (k.rename (logged answer) d).outcome = .error e ∧
        (k.rename (logged answer) d).log = before ++ [name]
  fault : ∀ e, k.parse d = .error e →
    (∀ names, k.Meets d names → ∀ name ∈ names, ∃ new, answer name = .ok new) →
      (k.rename (logged answer) d).outcome = .error e ∧
        k.Front d (k.rename (logged answer) d).log
  in_place : (k.splice (logged answer) d).run = some <$> k.rename (logged answer) d

/-- What makes the renaming in descriptors of a kind the map on what they spell. -/
structure Laws (k : Kind T) (toText : T → List Char) : Prop where
  written : ∀ {d t}, k.parse d = .ok t → d = String.ofList (toText t)
  possible : ∀ {d t}, k.parse d = .ok t → ∀ name ∈ k.names t, IsClassName name
  reread : ∀ {t g}, (∀ name ∈ k.names t, IsClassName (g name)) →
    k.parse (String.ofList (toText (k.renamed g t))) = .ok (k.renamed g t)
  stays : ∀ {t g}, (∀ name ∈ k.names t, g name = name) → k.renamed g t = t
  asks : ∀ {d t f g}, Agrees f g → k.parse d = .ok t →
    Asks f (k.names t)
      (if (k.names t).isEmpty then none else some (String.ofList (toText (k.renamed g t))))
      (k.rename f d)
  front : ∀ {d names}, k.Front d names → ∀ f, ∃ rest,
    k.rename f d = askAll f names >>= fun _ => rest
  stops : ∀ {d e}, k.parse d = .error e → ∃ names, k.Front d names ∧
    ∀ f, k.rename f d = askAll f names >>= fun _ => fail e
  in_place : ∀ f d, (k.splice f d).run = some <$> k.rename f d

end Kind

/-! ### Asking with a log -/

section

variable {answer : String → Except Error String} {names : List String}

theorem agrees_logged (f : String → String) : Agrees (logged fun name => .ok (f name)) f := by
  intro name text answered
  exact Except.ok.inj answered

theorem log_askAll_logged (h : ∀ name ∈ names, ∃ new, answer name = .ok new) :
    (askAll (logged answer) names).log = names := by
  rw [log_askAll h]
  exact List.flatMap_singleton' _

theorem outcome_askAll_logged (h : ∀ name ∈ names, ∃ new, answer name = .ok new) :
    (askAll (logged answer) names).outcome = .ok () := by
  refine (outcome_askAll (agrees_answers _)).2 fun name hn => ?_
  obtain ⟨new, answered⟩ := h name hn
  have given : (logged answer name).outcome = .ok new := answered
  rw [given, agrees_answers (logged answer) name new given]

/-- Once all names in front are answered, what follows decides. -/
theorem askAll_logged_bind (h : ∀ name ∈ names, ∃ new, answer name = .ok new) {α : Type}
    (rest : Traced String α) :
    (askAll (logged answer) names >>= fun _ => rest).outcome = rest.outcome ∧
      (askAll (logged answer) names >>= fun _ => rest).log = names ++ rest.log := by
  have answered := outcome_askAll_logged h
  constructor
  · rw [outcome_bind, answered]
    rfl
  · rw [log_bind_ok answered, log_askAll_logged h]

/-- The first failure ends the asking. -/
theorem askAll_logged_bind_of_error {name : String} {e : Error}
    (h : ∀ n ∈ names, ∃ new, answer n = .ok new) (fails : answer name = .error e)
    (after : List String) {α : Type} (rest : Traced String α) :
    (askAll (logged answer) (names ++ name :: after) >>= fun _ => rest).outcome = .error e ∧
      (askAll (logged answer) (names ++ name :: after) >>= fun _ => rest).log =
        names ++ [name] := by
  have failed : (logged answer name).outcome = .error e := fails
  rw [askAll_append, bind_assoc, askAll, bind_assoc]
  obtain ⟨out, seen⟩ := askAll_logged_bind h
    (logged answer name >>= fun _ => askAll (logged answer) after >>= fun _ => rest)
  rw [out, seen, outcome_bind, log_bind_error failed, failed]
  exact ⟨rfl, rfl⟩

end

namespace Kind.Laws

variable {T : Type} {k : Kind T} {toText : T → List Char} {d : String}

theorem meets (h : k.Laws toText) {names : List String} (met : k.Meets d names)
    (f : String → Traced String String) :
    ∃ rest, k.rename f d = askAll f names >>= fun _ => rest := by
  rcases met with front | ⟨t, parsed, rfl⟩
  · exact h.front front f
  · exact ⟨_, h.asks (agrees_answers f) parsed⟩

/-- A descriptor that spells a type is answered, and the answer spells the type with new names. -/
theorem outcome_rename (h : k.Laws toText) {t : T} (parsed : k.parse d = .ok t)
    (f : String → String) :
    ∃ answer, (k.rename (logged fun name => .ok (f name)) d).outcome = .ok answer ∧
      answer.getD d = String.ofList (toText (k.renamed f t)) ∧
        (answer = none ↔ k.names t = []) := by
  have answered := ((h.asks (agrees_logged f) parsed).outcome (agrees_logged f)).2
    ⟨fun name _ => rfl, rfl⟩
  refine ⟨_, answered, ?_⟩
  by_cases nameless : k.names t = []
  · rw [h.stays (by simp [nameless]), ← h.written parsed]
    simp [nameless]
  · simp [nameless]

theorem mapsTypes (h : k.Laws toText) {f : String → String}
    (hf : ∀ name, IsClassName name → IsClassName (f name)) (d : String) : k.MapsTypes f d where
  fails_iff e := by
    cases parsed : k.parse d with
    | error fault =>
      obtain ⟨names, -, stops⟩ := h.stops parsed
      rw [stops, (askAll_logged_bind (fun name _ => ⟨f name, rfl⟩) (fail fault)).1]
      show Except.error fault = .error e ↔ _
      rw [Except.error.injEq, Except.error.injEq]
    | ok t =>
      obtain ⟨answer, answered, -⟩ := h.outcome_rename parsed f
      rw [answered]
      simp only [reduceCtorEq]
  asks t parsed := by
    rw [(h.asks (agrees_logged f) parsed).log fun name _ => ⟨f name, rfl⟩]
    exact List.flatMap_singleton' _
  maps t parsed := by
    obtain ⟨answer, answered, text, nameless⟩ := h.outcome_rename parsed f
    refine ⟨answer, answered, ?_, nameless⟩
    rw [text]
    exact h.reread fun name hn => hf name (h.possible parsed name hn)
  keeps t parsed := by
    obtain ⟨answer, answered, text, nameless⟩ := h.outcome_rename parsed id
    refine ⟨answer, answered, ?_, nameless⟩
    rw [text, h.stays (g := id) fun _ _ => rfl, ← h.written parsed]

theorem failsInOrder (h : k.Laws toText) (answer : String → Except Error String) (d : String) :
    k.FailsInOrder answer d where
  first_failure before name after e met answered fails := by
    obtain ⟨rest, asked⟩ := h.meets met (logged answer)
    rw [asked]
    exact askAll_logged_bind_of_error answered fails after rest
  fault e parsed answered := by
    obtain ⟨names, front, stops⟩ := h.stops parsed
    obtain ⟨out, seen⟩ := askAll_logged_bind (answered names (.inl front)) (fail (α := Option String) e)
    rw [stops, out, seen]
    exact ⟨rfl, by simpa [fail] using front⟩
  in_place := h.in_place _ d

end Kind.Laws

/-! ### Both kinds -/

theorem exists_fault_of_parse {d : String} {e : Error} (h : MethodDescriptor.parse d = .error e) :
    ∃ fault, (scanMethod d.toList).ending = .error fault ∧ e = .malformedDescriptor d fault := by
  rw [MethodDescriptor.parse, MethodDescriptor.ofText] at h
  cases ending : (scanMethod d.toList).ending with
  | error fault =>
    rw [ending] at h
    exact ⟨fault, rfl, (Except.error.inj h).symm⟩
  | ok result =>
    rw [ending] at h
    cases h

theorem laws_typeKind : typeKind.Laws TypeDescriptor.toText where
  written parsed := (TypeDescriptor.parse_eq_ok_iff_toText.1 parsed).2
  possible := TypeDescriptor.isClassName_of_parse
  reread := TypeDescriptor.parse_renamed
  stays := TypeDescriptor.renamed_of_stay
  asks hg parsed := asks_answerType' hg parsed
  front {d names} front f := ⟨renameType f d, by rw [show names = [] from front]; rfl⟩
  stops {d e} parsed := by
    refine ⟨[], rfl, fun f => ?_⟩
    have parsed : TypeDescriptor.parse d = .error e := parsed
    show renameType f d = _
    rw [renameType, parsed]
    rfl
  in_place := spliceType_eq

theorem laws_methodKind : methodKind.Laws MethodDescriptor.toText where
  written parsed := (MethodDescriptor.parse_eq_ok_iff_toText.1 parsed).2
  possible := MethodDescriptor.isClassName_of_parse
  reread := MethodDescriptor.parse_renamed
  stays := MethodDescriptor.renamed_of_stay
  asks hg parsed :=
    have read := MethodDescriptor.parse_eq_ok_iff.1 parsed
    asks_answerMethod hg read.1 read.2
  front {d names} front f := by
    show ∃ rest, renameMethod f d = _
    rcases front with rfl | ⟨ts, rest, rfl, possible, text⟩
    · exact ⟨_, rfl⟩
    · have read : (scanMethod d.toList).parameters =
          ts ++ (scanParameters (byteLength d.toList) rest).parameters := by
        rw [text]
        exact congrArg MethodScan.parameters (scanParameters_append possible _ rest)
      rw [renameMethod, read, asks_parameters (agrees_answers f), List.filterMap_append,
        askAll_append, bind_assoc, bind_assoc]
      exact ⟨_, rfl⟩
  stops {d e} parsed := by
    obtain ⟨fault, stops, rfl⟩ := exists_fault_of_parse parsed
    refine ⟨_, ?_, fun f => renameMethod_of_error f stops⟩
    rcases scanMethod_cases d.toList with ⟨behind, split, possible⟩ | unopened
    · exact .inr ⟨_, behind, rfl, possible, split⟩
    · exact .inl (by rw [unopened]; rfl)
  in_place := spliceMethod_eq

end Descriptor

/-- **Renaming is the map on what descriptors spell**, for types and for methods. It succeeds exactly
on the descriptors that spell something, asks for each name once and in order, and stops at the first
failure or fault that it meets. -/
theorem renaming_is_map (f : String → String)
    (hf : ∀ name, IsClassName name → IsClassName (f name)) (d : String) :
    typeKind.MapsTypes f d ∧ methodKind.MapsTypes f d ∧
      ∀ answer, typeKind.FailsInOrder answer d ∧ methodKind.FailsInOrder answer d :=
  ⟨laws_typeKind.mapsTypes hf d, laws_methodKind.mapsTypes hf d, fun answer =>
    ⟨laws_typeKind.failsInOrder answer d, laws_methodKind.failsInOrder answer d⟩⟩

/-- Two names and a type without one, with new names in a package of their own, and with a name that
is not answered. -/
theorem renaming_is_map_prefixed :
    let d := "(I[Lä/B;)Lc/D;"
    let f : String → String := ("x/" ++ ·)
    (∀ name, IsClassName name → IsClassName (f name)) ∧
      (renameMethod (logged fun name => .ok (f name)) d).log = ["ä/B", "c/D"] ∧
      (∃ answer, (renameMethod (logged fun name => .ok (f name)) d).outcome = .ok answer ∧
        MethodDescriptor.parse (answer.getD d) =
          .ok ⟨[⟨0, .primitive .int⟩, ⟨1, .object "x/ä/B"⟩], .value ⟨0, .object "x/c/D"⟩⟩) ∧
      ∀ e, (renameMethod (logged fun name => if name = "c/D" then .error e else .ok name) d).outcome =
        .error e := by
  intro d f
  have possible (name : String) (h : IsClassName name) : IsClassName (f name) := by
    refine ⟨by simp [f], fun c hc => ?_⟩
    rw [String.toList_append, List.mem_append] at hc
    rcases hc with package | inside
    · have spelled : c = 'x' ∨ c = '/' := by simpa using package
      rcases spelled with rfl | rfl
      · rfl
      · rfl
    · exact h.legal c inside
  have parsed : MethodDescriptor.parse d =
      .ok ⟨[⟨0, .primitive .int⟩, ⟨1, .object "ä/B"⟩], .value ⟨0, .object "c/D"⟩⟩ :=
    MethodDescriptor.parse_eq_ok_iff_toText.2 ⟨by decide, by decide⟩
  obtain ⟨-, mapped, failing⟩ := renaming_is_map f possible d
  obtain ⟨answer, answered, spelled, -⟩ := mapped.maps _ parsed
  refine ⟨possible, mapped.asks _ parsed, ⟨answer, answered, spelled⟩, fun e => ?_⟩
  refine ((failing _).2.first_failure ["ä/B"] "c/D" [] e (.inr ⟨_, parsed, rfl⟩) ?_ rfl).1
  intro n hn
  rw [List.mem_singleton.1 hn]
  exact ⟨_, rfl⟩

end Pseudonym
