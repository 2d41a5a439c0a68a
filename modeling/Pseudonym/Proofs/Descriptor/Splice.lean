import Pseudonym.Proofs.Descriptor.Offsets

/-!
# Descriptors renamed in place

Renaming takes a descriptor apart and writes it again. A descriptor can also be renamed without
taking it apart: the new text is started when the first name is met, and for each name what stands
in front of it is copied over from where the copying stopped last, and then the new name is written
(`Splice.put`). Both give the same text, ask for the same names and fail in the same way, whatever
the names are replaced by (`spliceType_eq`, `spliceMethod_eq`). The invariant of the copying is that
what is not yet copied makes the new text complete (`Splice.Continues`):

    new text so far ++ what is not copied yet  =  what is read so far, with new names.
-/

namespace Pseudonym

open Descriptor Text Traced

/-- A type without a class has no name in its text. -/
theorem TypeDescriptor.name?_span_of_none {t : TypeDescriptor} (h : t.elementName? = none)
    (start : Nat) : (t.span start).name? = none := by
  cases t with
  | void => rfl
  | value t =>
    have nameless : t.element.name? = none := h
    rw [span, FieldType.span, nameless]
    rfl

namespace Descriptor

/-! ### Copying and replacing -/

/-- How far a descriptor is copied. -/
structure Splice where
  /-- The new text, once there is something to replace. -/
  out : Option (List Char)
  /-- The offset up to which the old text is copied or replaced. -/
  copied : Nat

namespace Splice

/-- Nothing is replaced and nothing is copied. -/
def initial : Splice := ⟨none, 0⟩

variable {ω : Type}

/-- What can only be had by cutting a text where it can be cut. -/
def cut {α : Type} (part : Option α) : OptionT (Traced ω) α := OptionT.mk (pure part)

/-- Copies up to the name at a span, if there is a name, and writes the new one. -/
def put (f : String → Traced ω String) (text : List Char) (s : Splice) (span : Span) :
    OptionT (Traced ω) Splice :=
  match span.name? with
  | none => pure s
  | some (start, stop) => do
    let name ← cut (slice start stop text)
    let new ← OptionT.lift (f (String.ofList name))
    let between ← cut (slice s.copied start text)
    return ⟨some (s.out.getD [] ++ between ++ new.toList), stop⟩

/-- Copies the rest of the text, if anything was replaced. -/
def finish (text : List Char) (s : Splice) : OptionT (Traced ω) (Option String) :=
  match s.out with
  | none => pure none
  | some out => do
    let halves ← cut (cutAt s.copied text)
    return some (String.ofList (out ++ halves.2))

end Splice

variable {ω : Type}

/-- Renames the class in a type descriptor in place. -/
def spliceType (f : String → Traced ω String) (descriptor : String) :
    OptionT (Traced ω) (Option String) := do
  let found ← Splice.cut (scanLastSpan descriptor.toList 0)
  let span ← OptionT.lift (lift (located descriptor found))
  let s ← Splice.initial.put f descriptor.toList span
  s.finish descriptor.toList

/-- Renames the classes in a method descriptor in place. -/
def spliceMethod (f : String → Traced ω String) (descriptor : String) :
    OptionT (Traced ω) (Option String) := do
  let scan ← Splice.cut (walkMethod descriptor.toList)
  let s ← scan.parameters.foldlM (Splice.put f descriptor.toList) Splice.initial
  let span ← OptionT.lift (lift (located descriptor scan.ending))
  let s ← s.put f descriptor.toList span
  s.finish descriptor.toList

/-! ### Asking on the way -/

section

variable {α β : Type} {f : String → Traced ω String} {qs rs : List String} {a : α} {b : β}

theorem run_bind_of_asks {x : OptionT (Traced ω) α} (hx : Asks f qs (some a) x.run)
    (k : α → OptionT (Traced ω) β) : (x >>= k).run = askAll f qs >>= fun _ => (k a).run := by
  rw [OptionT.run_bind, Option.elimM, hx, bind_assoc]
  simp only [pure_bind, Option.elim_some]

theorem asks_run_bind {x : OptionT (Traced ω) α} {k : α → OptionT (Traced ω) β}
    (hx : Asks f qs (some a) x.run) (hk : Asks f rs (some b) (k a).run) :
    Asks f (qs ++ rs) (some b) (x >>= k).run := by
  rw [OptionT.run_bind]
  exact hx.bind hk

theorem asks_run_pure (a : α) : Asks f [] (some a) (pure a : OptionT (Traced ω) α).run :=
  Asks.result f (some a)

theorem asks_run_cut {part : Option α} (h : part = some a) :
    Asks f [] (some a) (Splice.cut part : OptionT (Traced ω) α).run := by
  subst h
  exact Asks.result f (some a)

theorem asks_run_lift {x : Traced ω α} (hx : Asks f qs a x) :
    Asks f qs (some a) (OptionT.lift x).run := by
  rw [OptionT.run_lift, bind_pure_comp]
  exact hx.map some

end

/-! ### What is not copied yet -/

namespace Splice

/-- How far the copying is where `before` is read and `written` is what it becomes, with the names
that were met. -/
structure Continues (s : Splice) (before written : List Char) (names : List String) : Prop where
  /-- What is read is copied but for a part that is left as it is. -/
  covers : ∃ front gap, before = front ++ gap ∧ s.copied = byteLength front ∧
    s.out.getD [] ++ gap = written
  out_eq_none_iff : s.out = none ↔ names = []

variable {s : Splice} {before written : List Char} {names : List String}

theorem continues_initial : initial.Continues [] [] [] := ⟨⟨[], [], rfl, rfl, rfl⟩, by simp [initial]⟩

/-- What is read and stays needs no copying now. -/
theorem Continues.append (h : s.Continues before written names) (same : List Char) :
    s.Continues (before ++ same) (written ++ same) names := by
  obtain ⟨⟨front, gap, rfl, copied, rfl⟩, met⟩ := h
  exact ⟨⟨front, gap ++ same, List.append_assoc .., copied, (List.append_assoc ..).symm⟩, met⟩

variable {f : String → Traced ω String} {g : String → String}

/-- **A name is replaced, and everything in front of it is copied.** -/
theorem asks_put_name (hg : Agrees f g) (h : s.Continues before written names) (name : String)
    (rest : List Char) (start dimensions stop' : Nat) :
    let stop := byteLength before + byteLength name.toList
    ∃ s' : Splice, s'.Continues (before ++ name.toList) (written ++ (g name).toList)
        (names ++ [name]) ∧
      Asks f [name] (some s') (s.put f (before ++ (name.toList ++ rest))
        ⟨start, stop', dimensions, some (byteLength before, stop)⟩).run := by
  obtain ⟨⟨front, gap, rfl, copied, rfl⟩, -⟩ := h
  intro stop
  refine ⟨⟨some (s.out.getD [] ++ gap ++ (g name).toList), stop⟩, ⟨⟨front ++ gap ++ name.toList, [],
    (List.append_nil _).symm, (byteLength_append _ _).symm, List.append_nil _⟩, by simp⟩, ?_⟩
  have named : slice (byteLength (front ++ gap)) stop (front ++ gap ++ (name.toList ++ rest)) =
      some name.toList := slice_append (front ++ gap) name.toList rest
  have between : slice s.copied (byteLength (front ++ gap)) (front ++ gap ++ (name.toList ++ rest)) =
      some gap := by
    rw [copied, byteLength_append, List.append_assoc]
    exact slice_append front gap (name.toList ++ rest)
  have asked : Asks f [name] (g name) (f (String.ofList name.toList)) := by
    rw [String.ofList_toList]
    exact Asks.ask hg name
  exact asks_run_bind (asks_run_cut named) <| asks_run_bind (asks_run_lift asked) <|
    asks_run_bind (asks_run_cut between) (asks_run_pure _)

/-- **One type is renamed where it stands.** -/
theorem asks_put (hg : Agrees f g) (h : s.Continues before written names) (t : TypeDescriptor)
    (rest : List Char) :
    ∃ s' : Splice, s'.Continues (before ++ t.toText) (written ++ (t.renamed g).toText)
        (names ++ t.elementName?.toList) ∧
      Asks f t.elementName?.toList (some s')
        (s.put f (before ++ (t.toText ++ rest)) (t.span (byteLength before))).run := by
  cases named : t.elementName? with
  | none =>
    have stays : t.renamed g = t := TypeDescriptor.renamed_of_stay (by simp [named])
    refine ⟨s, ?_, ?_⟩
    · rw [stays, Option.toList_none, List.append_nil]
      exact h.append t.toText
    · rw [put, TypeDescriptor.name?_span_of_none named]
      exact asks_run_pure s
  | some name =>
    obtain ⟨n, rfl⟩ := TypeDescriptor.eq_value_of_elementName? named
    have start : byteLength (before ++ (List.replicate n '[' ++ ['L'])) =
        byteLength before + n + 1 := by
      rw [byteLength_append, byteLength_append, byteLength_replicate, ← Nat.add_assoc]
      rfl
    obtain ⟨s', continues, asks⟩ := asks_put_name hg (h.append (List.replicate n '[' ++ ['L'])) name
      (';' :: rest) (byteLength before) n (byteLength before + n + 1 + byteLength name.toList + 1)
    have behind := continues.append [';']
    refine ⟨s', ?_, ?_⟩
    · simpa [TypeDescriptor.toText, TypeDescriptor.renamed, FieldType.toText, FieldType.renamed,
        ElementType.toText, ElementType.renamed] using behind
    · rw [start] at asks
      rw [TypeDescriptor.span, FieldType.span_object]
      simpa [TypeDescriptor.toText, FieldType.toText, ElementType.toText] using asks

/-- **Types that stand one behind the other are renamed one after the other.** -/
theorem asks_foldlM_put (hg : Agrees f g) (ts : List FieldType) (rest : List Char)
    (h : s.Continues before written names) :
    ∃ s' : Splice, s'.Continues (before ++ ts.flatMap FieldType.toText)
        (written ++ (ts.map (FieldType.renamed g)).flatMap FieldType.toText)
        (names ++ ts.filterMap (·.element.name?)) ∧
      Asks f (ts.filterMap (·.element.name?)) (some s')
        ((spans (byteLength before) ts).foldlM
          (put f (before ++ (ts.flatMap FieldType.toText ++ rest))) s).run := by
  induction ts generalizing s before written names with
  | nil => exact ⟨s, by simpa using h, asks_run_pure s⟩
  | cons t ts ih =>
    obtain ⟨s₁, continues₁, first⟩ := asks_put hg h (.value t)
      (ts.flatMap FieldType.toText ++ rest)
    obtain ⟨s₂, continues₂, others⟩ := ih continues₁
    refine ⟨s₂, ?_, ?_⟩
    · simpa [List.filterMap_eq_flatMap_toList, TypeDescriptor.elementName?, TypeDescriptor.toText,
        TypeDescriptor.renamed] using continues₂
    · rw [List.filterMap_eq_flatMap_toList] at others ⊢
      rw [List.flatMap_cons, List.flatMap_cons, spans, List.foldlM_cons, List.append_assoc]
      rw [byteLength_append, List.append_assoc] at others
      exact asks_run_bind first others

theorem asks_finish {text : List Char} (h : s.Continues text written names) :
    Asks f [] (some (if names.isEmpty then none else some (String.ofList written)))
      (s.finish text).run := by
  obtain ⟨⟨front, gap, rfl, copied, rfl⟩, met⟩ := h
  rw [finish]
  cases started : s.out with
  | none =>
    rw [met.1 started]
    exact asks_run_pure none
  | some out =>
    have some_name : names ≠ [] := fun none => absurd (met.2 none) (by simp [started])
    rw [if_neg (by simpa using some_name), copied]
    exact asks_run_bind (asks_run_cut (cutAt_append front gap)) (asks_run_pure _)

/-- **The last type is renamed where it stands, and the text is complete.** -/
theorem asks_last (hg : Agrees f g) (h : s.Continues before written names) {t : TypeDescriptor}
    {text out : List Char} (whole : before ++ t.toText = text)
    (renamed : written ++ (t.renamed g).toText = out) :
    Asks f t.elementName?.toList
      (some (if (names ++ t.elementName?.toList).isEmpty then none else some (String.ofList out)))
      (do
        let span ← OptionT.lift (lift (.ok (t.span (byteLength before))))
        let s ← s.put f text span
        s.finish text : OptionT (Traced ω) (Option String)).run := by
  obtain ⟨s', continues, last⟩ := asks_put hg h t []
  rw [List.append_nil, whole] at last
  rw [whole, renamed] at continues
  have put_and_finish := asks_run_bind last (asks_finish (f := f) continues)
  rw [List.append_nil] at put_and_finish
  exact asks_run_bind (asks_run_lift (Asks.result f (t.span (byteLength before)))) put_and_finish

end Splice

/-! ### The same renaming -/

section

variable {f : String → Traced ω String} {g : String → String} {d : String}

/-- The names that are given, and any name where none is. -/
def answers (f : String → Traced ω String) (name : String) : String :=
  (f name).outcome.toOption.getD name

theorem agrees_answers (f : String → Traced ω String) : Agrees f (answers f) := by
  intro name text answered
  rw [answers, answered]
  rfl

theorem asks_parameters (hg : Agrees f g) (ts : List FieldType) :
    Asks f (ts.filterMap (·.element.name?)) (ts.map (FieldType.renamed g))
      (ts.mapM (FieldType.renameM f)) := by
  rw [List.filterMap_eq_flatMap_toList]
  exact Asks.mapM fun t _ => FieldType.asks hg t

/-- Where the reading stops, the parameters in front were renamed. -/
theorem renameMethod_of_error (f : String → Traced ω String) {fault : DescriptorFault}
    (stops : (scanMethod d.toList).ending = .error fault) :
    renameMethod f d =
      askAll f ((scanMethod d.toList).parameters.filterMap (·.element.name?)) >>= fun _ =>
        fail (.malformedDescriptor d fault) := by
  rw [renameMethod, asks_parameters (agrees_answers f), bind_assoc, stops]
  rfl

theorem run_cut_bind {α β : Type} (a : α) (k : α → OptionT (Traced ω) β) :
    (Splice.cut (some a) >>= k).run = (k a).run := by
  rw [run_bind_of_asks (f := pure) (asks_run_cut rfl), askAll, pure_bind]

/-- The parameters are renamed where they stand. -/
theorem asks_splice_parameters (hg : Agrees f g) (text : List Char) :
    let ts := (scanMethod text).parameters
    ∃ s : Splice, Asks f (ts.filterMap (·.element.name?)) (some s)
        ((spans 1 ts).foldlM (Splice.put f text) Splice.initial).run ∧
      ∀ result, (scanMethod text).ending = .ok result →
        s.Continues ('(' :: ts.flatMap FieldType.toText)
          ('(' :: (ts.map (FieldType.renamed g)).flatMap FieldType.toText)
          (ts.filterMap (·.element.name?)) := by
  intro ts
  rcases scanMethod_cases text with ⟨behind, split, -⟩ | unopened
  · obtain ⟨s, continues, asks⟩ := Splice.asks_foldlM_put hg ts behind
      (Splice.continues_initial.append ['('])
    rw [List.nil_append, List.singleton_append, ← split] at asks
    exact ⟨s, asks, fun _ _ => continues⟩
  · have none : ts = [] := congrArg MethodScan.parameters unopened
    rw [none, unopened]
    exact ⟨Splice.initial, asks_run_pure _, fun _ read => by cases read⟩

/-- **A method descriptor is renamed in place as it is renamed type by type.** -/
theorem spliceMethod_eq (f : String → Traced ω String) (d : String) :
    (spliceMethod f d).run = some <$> renameMethod f d := by
  have hg := agrees_answers f
  obtain ⟨s, parameters, continues⟩ := asks_splice_parameters hg d.toList
  rw [spliceMethod, walkMethod_eq, run_cut_bind]
  dsimp only
  cases ending : (scanMethod d.toList).ending with
  | error fault =>
    rw [run_bind_of_asks parameters, renameMethod_of_error f ending, map_bind]
    rfl
  | ok result =>
    -- The last type stands behind the closing parenthesis, and nothing behind it.
    have written := toText_of_scanMethod ending
    have closed := (continues result ending).append [')']
    generalize same : (scanMethod d.toList).parameters = ts at *
    have answered := (asks_answerMethod hg (t := ⟨ts, result⟩) same ending).map some
    rw [MethodDescriptor.renamed, MethodDescriptor.toText_eq_front] at answered
    have last := Splice.asks_last hg closed
      ((MethodDescriptor.toText_eq_front ts result).symm.trans written.symm) rfl
    exact (asks_run_bind parameters last).unique answered

/-- `asks_answerType` in the form of `asks_answerMethod`. -/
theorem asks_answerType' (hg : Agrees f g) {t : TypeDescriptor}
    (parsed : TypeDescriptor.parse d = .ok t) :
    Asks f t.elementName?.toList
      (if t.elementName?.toList.isEmpty then none else some (String.ofList (t.renamed g).toText))
      (renameType f d) := by
  have same : (if t.elementName?.toList.isEmpty then none
      else some (String.ofList (t.renamed g).toText)) =
        t.elementName?.map fun _ => String.ofList (t.renamed g).toText := by
    cases t.elementName? <;> rfl
  exact same ▸ asks_answerType hg parsed

/-- **A type descriptor is renamed in place as it is renamed as a type.** -/
theorem spliceType_eq (f : String → Traced ω String) (d : String) :
    (spliceType f d).run = some <$> renameType f d := by
  have hg := agrees_answers f
  have found : scanLastSpan d.toList 0 = some ((TypeDescriptor.ofText d.toList).map (·.span 0)) :=
    scanLastSpan_eq [] d.toList
  rw [spliceType, found, run_cut_bind]
  cases read : TypeDescriptor.ofText d.toList with
  | error fault =>
    rw [renameType, TypeDescriptor.parse, read]
    rfl
  | ok t =>
    have parsed : TypeDescriptor.parse d = .ok t := located_eq_ok_iff.2 read
    have last := Splice.asks_last hg Splice.continues_initial (toText_of_parse parsed).1.symm rfl
    exact last.unique ((asks_answerType' hg parsed).map some)

end

end Descriptor

end Pseudonym
