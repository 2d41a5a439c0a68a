import Pseudonym.Proofs.Descriptor.ReadBack
import Pseudonym.Proofs.Utf8

/-!
# Descriptors read by offsets

The scanners of `Pseudonym.Descriptor.Scan` hand on what is left of a text. A descriptor can also be
read in place: a reader holds a byte offset, looks at single bytes, and keeps for each type the
offsets at which it and its name start and stop. The text is cut only afterwards, and at an offset
that is not that of a character there is no cutting it. `scanSpan` and `walkSpans` are this reader,
with `none` for a cut that is impossible. It never comes to that, and both readers find the same
types and faults (`ofBytes_eq`). Where a type stands follows from its text and from where it starts
(`FieldType.span`), so that

    scanSpan false (before ++ rest) (byteLength before)  finds  t.span (byteLength before)

exactly if `scanField (byteLength (before ++ rest)) rest` finds the type `t`.
-/

namespace Pseudonym

open Descriptor Text

/-! ### The reader -/

namespace Descriptor

/-- Where a type stands in a descriptor. -/
structure Span where
  start : Nat
  stop : Nat
  /-- The number of brackets in front of the element type. -/
  dimensions : Nat
  /-- Where the name of the class starts and stops, if a class is named. -/
  name? : Option (Nat × Nat)
deriving DecidableEq, Repr

def primitiveLetters : List Char := ['B', 'C', 'D', 'F', 'I', 'J', 'S', 'Z']

def illegalLetters : List Char := ['(', ')', '[', '.', ';', '<', '>']

/-- Reads the class type whose `L` stands behind the brackets from `start` on. -/
def scanName (bytes : List UInt8) (start dimensions : Nat) : Except DescriptorFault Span :=
  let place := start + dimensions
  let behind := bytes.drop (place + 1)
  match behind.findIdx? (· == ';'.toUInt8) with
  | none => .error (.unterminatedObject place)
  | some length =>
    if length = 0 then .error (.emptyName place)
    else
      match (behind.take length).find? (fun b => illegalLetters.any (b == ·.toUInt8)) with
      | some b => .error (.illegalInName (Char.ofNat b.toNat))
      | none => .ok ⟨start, place + 1 + length + 1, dimensions,
          some (place + 1, place + 1 + length)⟩

/-- Reads the type at an offset, which may be `V` if `void` says so. -/
def scanSpan (void : Bool) (text : List Char) (start : Nat) :
    Option (Except DescriptorFault Span) :=
  let bytes := utf8 text
  let dimensions := ((bytes.drop start).takeWhile (· == '['.toUInt8)).length
  let place := start + dimensions
  match bytes[place]? with
  | none => some (.error (if dimensions = 0 then .unexpectedEnd else .arrayWithoutElement))
  | some b =>
    if primitiveLetters.any (b == ·.toUInt8) || (void && dimensions == 0 && b == 'V'.toUInt8) then
      some (.ok ⟨start, place + 1, dimensions, none⟩)
    else if b == 'L'.toUInt8 then some (scanName bytes start dimensions)
    else (cutAt place text).map fun halves => .error (.unexpected (halves.2.headD '?') place)

/-- Reads a type or `V` with which the text ends. -/
def scanLastSpan (text : List Char) (start : Nat) : Option (Except DescriptorFault Span) :=
  (scanSpan true text start).map fun found => do
    let span ← found
    if span.stop = byteLength text then return span else .error (.trailing span.stop)

theorem lt_stop_of_scanName {bytes : List UInt8} {start dimensions : Nat} {span : Span}
    (h : scanName bytes start dimensions = .ok span) : start < span.stop := by
  unfold scanName at h
  dsimp only at h
  split at h
  · cases h
  · split at h
    · cases h
    · split at h
      · cases h
      · obtain rfl := Except.ok.inj h
        dsimp only
        omega

theorem lt_stop_of_scanSpan {void : Bool} {text : List Char} {start : Nat} {span : Span}
    (h : scanSpan void text start = some (.ok span)) : start < span.stop := by
  unfold scanSpan at h
  dsimp only at h
  split at h
  · cases h
  · split at h
    · obtain rfl := Except.ok.inj (Option.some.inj h)
      dsimp only
      omega
    · split at h
      · exact lt_stop_of_scanName (Option.some.inj h)
      · obtain ⟨halves, -, faulty⟩ := Option.map_eq_some_iff.1 h
        cases faulty

/-- What a reader by offsets finds: the parameters up to the first fault, and then the fault or the
result. -/
structure SpanScan where
  parameters : List Span
  ending : Except DescriptorFault Span

/-- Reads parameters from an offset on, the closing parenthesis and the result. -/
def walkSpans (text : List Char) (start : Nat) : Option SpanScan :=
  match _h : (utf8 text)[start]? with
  | none => some ⟨[], .error .unterminatedParameters⟩
  | some b =>
    if b == ')'.toUInt8 then (scanLastSpan text (start + 1)).map (⟨[], ·⟩)
    else
      match _hs : scanSpan false text start with
      | none => none
      | some (.error fault) => some ⟨[], .error fault⟩
      | some (.ok span) =>
        (walkSpans text span.stop).map fun scan => ⟨span :: scan.parameters, scan.ending⟩
termination_by (utf8 text).length - start
decreasing_by
  have further := lt_stop_of_scanSpan _hs
  have inside := (List.getElem?_eq_some_iff.1 _h).1
  omega

/-- Reads a method descriptor. -/
def walkMethod (text : List Char) : Option SpanScan :=
  if (utf8 text).head? = some '('.toUInt8 then walkSpans text 1
  else some ⟨[], .error .noParameters⟩

/-- The type that stands at a span of a text. -/
def Span.type? (text : List Char) (span : Span) : Option TypeDescriptor :=
  match span.name? with
  | some (start, stop) =>
    (slice start stop text).map fun name => .value ⟨span.dimensions, .object (String.ofList name)⟩
  | none =>
    match (utf8 text)[span.start + span.dimensions]? with
    | none => none
    | some b =>
      if b == 'V'.toUInt8 then if span.dimensions = 0 then some .void else none
      else (Primitive.ofLetter? (Char.ofNat b.toNat)).map fun kind =>
        .value ⟨span.dimensions, .primitive kind⟩

/-- The type of a parameter, which is not void. -/
def Span.field? (text : List Char) (span : Span) : Option FieldType :=
  match span.type? text with
  | some (.value t) => some t
  | _ => none

end Descriptor

/-- The type that a text spells, read by offsets. -/
def TypeDescriptor.ofBytes (text : List Char) : Option (Except DescriptorFault TypeDescriptor) := do
  match ← scanLastSpan text 0 with
  | .error fault => return .error fault
  | .ok span => return .ok (← span.type? text)

/-- The method type that a text spells, read by offsets. -/
def MethodDescriptor.ofBytes (text : List Char) :
    Option (Except DescriptorFault MethodDescriptor) := do
  let scan ← walkMethod text
  let parameters ← scan.parameters.mapM (Span.field? text)
  match scan.ending with
  | .error fault => return .error fault
  | .ok span => return .ok ⟨parameters, ← span.type? text⟩

/-! ### Where types stand -/

/-- Where a type stands in a text that spells it from `start` on. -/
def FieldType.span (start : Nat) (t : FieldType) : Span where
  start := start
  stop := start + byteLength t.toText
  dimensions := t.dimensions
  name? := t.element.name?.map fun name =>
    (start + t.dimensions + 1, start + t.dimensions + 1 + byteLength name.toList)

def TypeDescriptor.span (start : Nat) : TypeDescriptor → Span
  | void => ⟨start, start + 1, 0, none⟩
  | value t => t.span start

@[simp] theorem TypeDescriptor.stop_span (start : Nat) (t : TypeDescriptor) :
    (t.span start).stop = start + byteLength t.toText := by
  cases t with
  | void => rfl
  | value t => rfl

theorem byteLength_replicate (n : Nat) : byteLength (List.replicate n '[') = n := by
  induction n with
  | zero => rfl
  | succ n ih =>
    rw [List.replicate_succ, byteLength_cons, ih, Nat.add_comm]
    rfl

theorem FieldType.span_primitive (start n : Nat) (kind : Primitive) :
    FieldType.span start ⟨n, .primitive kind⟩ = ⟨start, start + n + 1, n, none⟩ := by
  have one : kind.letter.utf8Size = 1 := by cases kind <;> rfl
  rw [span, toText, ElementType.toText, byteLength_append, byteLength_replicate, byteLength_cons,
    one]
  rfl

theorem FieldType.span_object (start n : Nat) (name : String) :
    FieldType.span start ⟨n, .object name⟩ =
      ⟨start, start + n + 1 + byteLength name.toList + 1, n,
        some (start + n + 1, start + n + 1 + byteLength name.toList)⟩ := by
  have length : byteLength (FieldType.mk n (.object name)).toText =
      n + (1 + (byteLength name.toList + 1)) := by
    rw [toText, ElementType.toText, byteLength_append, byteLength_replicate, List.cons_append,
      byteLength_cons, byteLength_append]
    rfl
  rw [span, length]
  simp only [ElementType.name?, Option.map_some, Span.mk.injEq, and_true, true_and]
  omega

/-- The text of a method type up to its result. -/
def MethodDescriptor.front (ts : List FieldType) : List Char :=
  '(' :: ts.flatMap FieldType.toText ++ [')']

theorem MethodDescriptor.toText_eq_front (ts : List FieldType) (result : TypeDescriptor) :
    (MethodDescriptor.mk ts result).toText = front ts ++ result.toText := by
  rw [toText, front, List.append_assoc, List.singleton_append]

theorem MethodDescriptor.byteLength_front (ts : List FieldType) :
    byteLength (front ts) = 1 + byteLength (ts.flatMap FieldType.toText) + 1 := by
  rw [front, byteLength_append, byteLength_cons]
  rfl

/-- Where types stand one behind the other. -/
def spans (start : Nat) : List FieldType → List Span
  | [] => []
  | t :: ts => t.span start :: spans (start + byteLength t.toText) ts

namespace Descriptor

/-! ### Single bytes -/

theorem isSome_ofLetter? (c : Char) :
    (Primitive.ofLetter? c).isSome = primitiveLetters.any (c == ·) := by
  unfold Primitive.ofLetter?
  split
  all_goals first
    | rfl
    | simp_all [primitiveLetters]

theorem reflects_primitive :
    Reflects (fun b => primitiveLetters.any (b == ·.toUInt8)) (Primitive.ofLetter? · |>.isSome) := by
  simp only [isSome_ofLetter?]
  exact reflects_any (by simp [primitiveLetters])

theorem isIllegalInName_eq (c : Char) : isIllegalInName c = illegalLetters.any (c == ·) := by
  simp [isIllegalInName, illegalLetters, Bool.or_assoc]

theorem ascii_illegalLetters : ∀ a ∈ illegalLetters, a.toNat < 128 := by simp [illegalLetters]

theorem reflects_illegal :
    Reflects (fun b => illegalLetters.any (b == ·.toUInt8)) isIllegalInName := by
  rw [funext isIllegalInName_eq]
  exact reflects_any ascii_illegalLetters

theorem ascii_of_isIllegalInName (c : Char) (h : isIllegalInName c = true) : c.toNat < 128 := by
  rw [isIllegalInName_eq, List.any_eq_true] at h
  obtain ⟨a, ha, same⟩ := h
  exact eq_of_beq same ▸ ascii_illegalLetters a ha

/-! ### Reading one type -/

theorem offset_append (before rest : List Char) :
    offset (byteLength (before ++ rest)) rest = byteLength before := by
  rw [offset, byteLength_append, Nat.add_sub_cancel]

theorem offset_brackets (before behind : List Char) (n : Nat) :
    offset (byteLength (before ++ (List.replicate n '[' ++ behind))) behind =
      byteLength before + n := by
  rw [← List.append_assoc, offset_append, byteLength_append, byteLength_replicate]

/-- The first semicolon ends a name. -/
theorem findIdx?_semicolon (rest : List Char) :
    (utf8 rest).findIdx? (· == ';'.toUInt8) =
      if rest.dropWhile (· != ';') = [] then none
      else some (byteLength (rest.takeWhile (· != ';'))) :=
  findIdx?_utf8 (reflects_beq (by decide)) rest

variable {before rest : List Char}

theorem scanName_eq (before rest : List Char) (dimensions : Nat) :
    let text := before ++ (List.replicate dimensions '[' ++ 'L' :: rest)
    scanName (utf8 text) (byteLength before) dimensions =
      (scanElement (byteLength text) dimensions ('L' :: rest)).map fun found =>
        FieldType.span (byteLength before) ⟨dimensions, found.1⟩ := by
  intro text
  have joined : text = (before ++ List.replicate dimensions '[') ++ 'L' :: rest :=
    (List.append_assoc ..).symm
  have length : byteLength (before ++ List.replicate dimensions '[') =
      byteLength before + dimensions := by rw [byteLength_append, byteLength_replicate]
  have place : offset (byteLength text) ('L' :: rest) = byteLength before + dimensions :=
    offset_brackets before ('L' :: rest) dimensions
  have behind : (utf8 text).drop (byteLength before + dimensions + 1) = utf8 rest := by
    have whole := drop_utf8 (before ++ List.replicate dimensions '[' ++ ['L']) rest
    rwa [byteLength_append, length, List.append_assoc, List.singleton_append, ← joined] at whole
  unfold scanName
  dsimp only
  rw [behind, findIdx?_semicolon, scanElement, place]
  cases ends : rest.dropWhile (· != ';') with
  | nil => rfl
  | cons c after =>
    have split := List.takeWhile_append_dropWhile (p := (· != ';')) (l := rest)
    generalize rest.takeWhile (· != ';') = name at split ⊢
    have inside : (utf8 rest).take (byteLength name) = utf8 name := by
      rw [← split, utf8_append, ← length_utf8, List.take_left]
    simp only [reduceCtorEq, if_false, inside, byteLength_eq_zero_iff, List.isEmpty_iff,
      find?_utf8 reflects_illegal ascii_of_isIllegalInName]
    by_cases empty : name = []
    · simp [empty, Except.map]
    · cases found : name.find? isIllegalInName with
      | some c =>
        have ascii := ascii_of_isIllegalInName c (List.find?_some found)
        simp [empty, Except.map, toNat_toUInt8 ascii]
      | none =>
        simp [empty, Except.map, FieldType.span_object]

/-- What the reader by offsets finds behind the brackets of a type, by characters. -/
def spanBehind (void : Bool) (bytes : List UInt8) (start dimensions : Nat) :
    List Char → Except DescriptorFault Span
  | [] => .error (if dimensions = 0 then .unexpectedEnd else .arrayWithoutElement)
  | c :: _ =>
    if (Primitive.ofLetter? c).isSome || (void && dimensions == 0 && c == 'V') then
      .ok ⟨start, start + dimensions + 1, dimensions, none⟩
    else if c == 'L' then scanName bytes start dimensions
    else .error (.unexpected c (start + dimensions))

theorem scanSpan_of_split {void : Bool} (before : List Char) {rest behind : List Char}
    {dimensions : Nat} (split : rest = List.replicate dimensions '[' ++ behind)
    (other : behind.head? ≠ some '[') :
    scanSpan void (before ++ rest) (byteLength before) =
      some (spanBehind void (utf8 (before ++ rest)) (byteLength before) dimensions behind) := by
  have counted : ((utf8 rest).takeWhile (· == '['.toUInt8)).length = dimensions := by
    have brackets : rest.takeWhile (· == '[') = List.replicate dimensions '[' := by
      rw [split, List.takeWhile_append_of_pos fun c hc => by simp [List.eq_of_mem_replicate hc]]
      cases behind with
      | nil => simp
      | cons c more =>
        rw [List.takeWhile_cons_of_neg (by simpa using other), List.append_nil]
    rw [takeWhile_utf8 (reflects_beq (by decide)), length_utf8, brackets, byteLength_replicate]
  have joined : before ++ rest = (before ++ List.replicate dimensions '[') ++ behind := by
    rw [split, List.append_assoc]
  have length : byteLength (before ++ List.replicate dimensions '[') =
      byteLength before + dimensions := by rw [byteLength_append, byteLength_replicate]
  have here : (utf8 (before ++ rest))[byteLength before + dimensions]? = (utf8 behind).head? := by
    rw [joined, ← length, getElem?_utf8]
  have cut : cutAt (byteLength before + dimensions) (before ++ rest) =
      some (before ++ List.replicate dimensions '[', behind) := by
    rw [joined, ← length, cutAt_append]
  unfold scanSpan
  dsimp only
  rw [drop_utf8, counted, here, cut]
  cases behind with
  | nil => rfl
  | cons c more =>
    obtain ⟨b, hb, first⟩ := head?_utf8_cons c more
    have isPrimitive : primitiveLetters.any (b == ·.toUInt8) = (Primitive.ofLetter? c).isSome :=
      reflects_primitive c b hb
    have isVoid : (b == 'V'.toUInt8) = (c == 'V') := reflects_beq (by decide) c b hb
    have isObject : (b == 'L'.toUInt8) = (c == 'L') := reflects_beq (by decide) c b hb
    rw [first]
    dsimp only
    rw [isPrimitive, isVoid, isObject, spanBehind]
    split
    · rfl
    · split
      · rfl
      · rfl

/-- The brackets of a type, and what stands behind them. -/
theorem split_brackets (rest : List Char) :
    rest = List.replicate (rest.takeWhile (· == '[')).length '[' ++ rest.dropWhile (· == '[') ∧
      (rest.dropWhile (· == '[')).head? ≠ some '[' := by
  constructor
  · rw [← takeWhile_bracket, List.takeWhile_append_dropWhile]
  · intro bracket
    have stop := List.head?_dropWhile_not (· == '[') rest
    rw [bracket] at stop
    cases stop

theorem scanElement_of_ne {c : Char} (object : c ≠ 'L') (total dimensions : Nat)
    (rest : List Char) :
    scanElement total dimensions (c :: rest) =
      match Primitive.ofLetter? c with
      | some kind => .ok (.primitive kind, rest)
      | none => .error (.unexpected c (offset total (c :: rest))) := by
  rw [scanElement.eq_def]
  split
  · next same => cases same
  · next same => exact absurd (List.cons.inj same).1 object
  · next same =>
    obtain ⟨rfl, rfl⟩ := List.cons.inj same
    rfl

theorem spanBehind_false (before behind : List Char) (dimensions : Nat) :
    let text := before ++ (List.replicate dimensions '[' ++ behind)
    spanBehind false (utf8 text) (byteLength before) dimensions behind =
      (scanElement (byteLength text) dimensions behind).map fun found =>
        FieldType.span (byteLength before) ⟨dimensions, found.1⟩ := by
  intro text
  cases behind with
  | nil => rfl
  | cons c more =>
    by_cases object : c = 'L'
    · subst object
      exact scanName_eq before more dimensions
    · have place : offset (byteLength text) (c :: more) = byteLength before + dimensions :=
        offset_brackets before (c :: more) dimensions
      rw [spanBehind, scanElement_of_ne object, place]
      cases found : Primitive.ofLetter? c with
      | none => simp [object, Except.map]
      | some kind => simp [Except.map, FieldType.span_primitive]

/-- **A type is found where it stands.** -/
theorem scanSpan_false_eq (before rest : List Char) :
    scanSpan false (before ++ rest) (byteLength before) =
      some ((scanField (byteLength (before ++ rest)) rest).map fun found =>
        found.1.span (byteLength before)) := by
  obtain ⟨split, other⟩ := split_brackets rest
  rw [scanSpan_of_split before split other, scanField]
  generalize (rest.takeWhile (· == '[')).length = dimensions at split ⊢
  generalize rest.dropWhile (· == '[') = behind at split ⊢
  subst split
  rw [spanBehind_false before behind dimensions]
  cases scanElement (byteLength (before ++ (List.replicate dimensions '[' ++ behind)))
      dimensions behind with
  | error fault => rfl
  | ok found => rfl

theorem scanSpan_true_of_ne (before : List Char) {rest : List Char} (h : rest.head? ≠ some 'V') :
    scanSpan true (before ++ rest) (byteLength before) =
      scanSpan false (before ++ rest) (byteLength before) := by
  obtain ⟨split, other⟩ := split_brackets rest
  rw [scanSpan_of_split before split other, scanSpan_of_split before split other]
  generalize (rest.takeWhile (· == '[')).length = dimensions at split ⊢
  generalize rest.dropWhile (· == '[') = behind at split ⊢
  cases behind with
  | nil => rfl
  | cons c more =>
    have value : (dimensions == 0 && c == 'V') = false := by
      rw [← Bool.not_eq_true, Bool.and_eq_true, beq_iff_eq, beq_iff_eq]
      rintro ⟨rfl, rfl⟩
      exact h (by rw [split]; rfl)
    rw [spanBehind, spanBehind, Bool.true_and, Bool.false_and, Bool.false_and, value]

theorem scanType_of_ne {rest : List Char} (h : rest.head? ≠ some 'V') (total : Nat) :
    scanType total rest = (scanField total rest).map fun found => (.value found.1, found.2) := by
  unfold scanType
  split
  · exact absurd rfl h
  · cases scanField total rest with
    | error fault => rfl
    | ok found => rfl

theorem scanSpan_true_eq (before rest : List Char) :
    scanSpan true (before ++ rest) (byteLength before) =
      some ((scanType (byteLength (before ++ rest)) rest).map fun found =>
        found.1.span (byteLength before)) := by
  by_cases h : rest.head? = some 'V'
  · obtain ⟨more, rfl⟩ := List.head?_eq_some_iff.1 h
    have split : 'V' :: more = List.replicate 0 '[' ++ 'V' :: more := rfl
    exact scanSpan_of_split before split (by simp)
  · rw [scanSpan_true_of_ne before h, scanSpan_false_eq, scanType_of_ne h]
    cases scanField (byteLength (before ++ rest)) rest with
    | error fault => rfl
    | ok found => rfl

/-! ### Reading all types -/

theorem scanLastSpan_eq (before rest : List Char) :
    scanLastSpan (before ++ rest) (byteLength before) =
      some ((scanLast (byteLength (before ++ rest)) rest).map (·.span (byteLength before))) := by
  rw [scanLastSpan, scanSpan_true_eq, scanLast, Option.map_some]
  cases scanned : scanType (byteLength (before ++ rest)) rest with
  | error fault => rfl
  | ok found =>
    obtain ⟨t, after⟩ := found
    obtain ⟨rfl, -⟩ := append_of_scanType scanned
    have stop : (t.span (byteLength before)).stop =
        offset (byteLength (before ++ (t.toText ++ after))) after := by
      rw [← List.append_assoc, offset_append, TypeDescriptor.stop_span, byteLength_append]
    have last : (t.span (byteLength before)).stop = byteLength (before ++ (t.toText ++ after)) ↔
        after.isEmpty = true := by
      rw [TypeDescriptor.stop_span, ← List.append_assoc, byteLength_append, byteLength_append,
        List.isEmpty_iff, ← byteLength_eq_zero_iff]
      omega
    show some (if (t.span (byteLength before)).stop = byteLength (before ++ (t.toText ++ after))
        then _ else _) = some (Except.map _ (if after.isEmpty then _ else _))
    by_cases ends : after.isEmpty = true
    · rw [if_pos (last.2 ends), if_pos ends]
      rfl
    · rw [if_neg (mt last.1 ends), if_neg ends, stop]
      rfl

section

variable {text : List Char} {start : Nat} {b : UInt8} {span : Span} {fault : DescriptorFault}

theorem walkSpans_of_none (h : (utf8 text)[start]? = none) :
    walkSpans text start = some ⟨[], .error .unterminatedParameters⟩ := by
  rw [walkSpans.eq_def]
  split
  · rfl
  · next found => cases h.symm.trans found

theorem walkSpans_close (h : (utf8 text)[start]? = some ')'.toUInt8) :
    walkSpans text start = (scanLastSpan text (start + 1)).map (⟨[], ·⟩) := by
  rw [walkSpans.eq_def]
  split
  · next found => cases h.symm.trans found
  · next found =>
    obtain rfl := Option.some.inj (h.symm.trans found)
    rw [if_pos (by decide)]

theorem walkSpans_of_error (h : (utf8 text)[start]? = some b) (other : (b == ')'.toUInt8) = false)
    (scanned : scanSpan false text start = some (.error fault)) :
    walkSpans text start = some ⟨[], .error fault⟩ := by
  rw [walkSpans.eq_def]
  split
  · next found => cases h.symm.trans found
  · next found =>
    obtain rfl := Option.some.inj (h.symm.trans found)
    rw [if_neg (by simp [other])]
    split
    · next found => cases scanned.symm.trans found
    · next found =>
      obtain rfl := Except.error.inj (Option.some.inj (scanned.symm.trans found))
      rfl
    · next found => cases scanned.symm.trans found

theorem walkSpans_of_ok (h : (utf8 text)[start]? = some b) (other : (b == ')'.toUInt8) = false)
    (scanned : scanSpan false text start = some (.ok span)) :
    walkSpans text start =
      (walkSpans text span.stop).map fun scan => ⟨span :: scan.parameters, scan.ending⟩ := by
  rw [walkSpans.eq_def]
  split
  · next found => cases h.symm.trans found
  · next found =>
    obtain rfl := Option.some.inj (h.symm.trans found)
    rw [if_neg (by simp [other])]
    split
    · next found => cases scanned.symm.trans found
    · next found => cases scanned.symm.trans found
    · next found =>
      obtain rfl := Except.ok.inj (Option.some.inj (scanned.symm.trans found))
      rfl

end

/-- **All types are found where they stand.** -/
theorem walkSpans_eq (before rest : List Char) :
    walkSpans (before ++ rest) (byteLength before) =
      let scan := scanParameters (byteLength (before ++ rest)) rest
      some ⟨spans (byteLength before) scan.parameters,
        scan.ending.map (·.span (byteLength before +
          byteLength (scan.parameters.flatMap FieldType.toText) + 1))⟩ := by
  -- One type goes in each step: the induction is on what is left of the text.
  induction hn : rest.length using Nat.strongRecOn generalizing before rest with
  | _ n ih =>
    cases rest with
    | nil =>
      have ends : (utf8 (before ++ []))[byteLength before]? = none := getElem?_utf8 before []
      rw [walkSpans_of_none ends, scanParameters.eq_def]
      rfl
    | cons c more =>
      obtain ⟨b, hb, first⟩ := head?_utf8_cons c more
      have here : (utf8 (before ++ c :: more))[byteLength before]? = some b :=
        (getElem?_utf8 before (c :: more)).trans first
      have closes : (b == ')'.toUInt8) = (c == ')') := reflects_beq (by decide) c b hb
      by_cases close : c = ')'
      · subst close
        rw [beq_self_eq_true, beq_iff_eq] at closes
        subst closes
        have one : byteLength [')'] = 1 := rfl
        have last := scanLastSpan_eq (before ++ [')']) more
        rw [byteLength_append, one, List.append_assoc, List.singleton_append] at last
        rw [walkSpans_close here, scanParameters_close, last]
        rfl
      · have other : (b == ')'.toUInt8) = false := by simpa [closes] using close
        have scanned := scanSpan_false_eq before (c :: more)
        cases found : scanField (byteLength (before ++ c :: more)) (c :: more) with
        | error fault =>
          rw [found] at scanned
          rw [walkSpans_of_error here other scanned, scanParameters_of_error close found]
          rfl
        | ok result =>
          obtain ⟨t, after⟩ := result
          rw [found] at scanned
          have shorter := length_scanField found
          obtain ⟨written, -⟩ := append_of_scanField found
          have behind := ih after.length (by omega) (before ++ t.toText) after rfl
          rw [List.append_assoc, ← written, byteLength_append] at behind
          rw [walkSpans_of_ok here other scanned, scanParameters_of_ok close found]
          show Option.map _ (walkSpans _ (byteLength before + byteLength t.toText)) = _
          rw [behind]
          simp only [Option.map_some, spans, List.flatMap_cons, byteLength_append, Nat.add_assoc]

theorem scanMethod_of_ne {c : Char} (h : c ≠ '(') (rest : List Char) :
    scanMethod (c :: rest) = ⟨[], .error .noParameters⟩ := by
  unfold scanMethod
  split
  · next same => exact absurd (List.cons.inj same).1 h
  · rfl

theorem walkMethod_eq (text : List Char) :
    walkMethod text =
      let scan := scanMethod text
      some ⟨spans 1 scan.parameters, scan.ending.map
        (·.span (byteLength (MethodDescriptor.front scan.parameters)))⟩ := by
  simp only [MethodDescriptor.byteLength_front]
  cases text with
  | nil => rfl
  | cons c rest =>
    obtain ⟨b, hb, first⟩ := head?_utf8_cons c rest
    have opens : (b == '('.toUInt8) = (c == '(') := reflects_beq (by decide) c b hb
    by_cases parenthesis : c = '('
    · subst parenthesis
      have start : (utf8 ('(' :: rest)).head? = some '('.toUInt8 := rfl
      rw [walkMethod, if_pos start]
      exact walkSpans_eq ['('] rest
    · have other : (utf8 (c :: rest)).head? ≠ some '('.toUInt8 := by
        rw [first, ne_eq, Option.some.injEq, ← beq_iff_eq, opens, beq_iff_eq]
        exact parenthesis
      rw [walkMethod, if_neg other, scanMethod_of_ne parenthesis]
      rfl

/-! ### Types from spans -/

theorem type?_field (before : List Char) (t : FieldType) (rest : List Char) :
    (t.span (byteLength before)).type? (before ++ (t.toText ++ rest)) = some (.value t) := by
  obtain ⟨n, element⟩ := t
  have length : byteLength (before ++ List.replicate n '[') = byteLength before + n := by
    rw [byteLength_append, byteLength_replicate]
  cases element with
  | primitive kind =>
    have joined : before ++ ((FieldType.mk n (.primitive kind)).toText ++ rest) =
        (before ++ List.replicate n '[') ++ kind.letter :: rest := by
      simp [FieldType.toText, ElementType.toText]
    have here := getElem?_utf8 (before ++ List.replicate n '[') (kind.letter :: rest)
    rw [FieldType.span_primitive, Span.type?]
    dsimp only
    rw [joined, ← length, here]
    cases kind <;> rfl
  | object name =>
    have joined : before ++ ((FieldType.mk n (.object name)).toText ++ rest) =
        (before ++ List.replicate n '[' ++ ['L']) ++ (name.toList ++ ';' :: rest) := by
      simp [FieldType.toText, ElementType.toText]
    have start : byteLength (before ++ List.replicate n '[' ++ ['L']) = byteLength before + n + 1 := by
      rw [byteLength_append, length]
      rfl
    have cut := slice_append (before ++ List.replicate n '[' ++ ['L']) name.toList (';' :: rest)
    rw [FieldType.span_object, Span.type?]
    dsimp only
    rw [joined, ← start, cut, Option.map_some, String.ofList_toList]

/-- **The type comes back from where it stands.** -/
theorem type?_eq (before : List Char) (t : TypeDescriptor) (rest : List Char) :
    (t.span (byteLength before)).type? (before ++ (t.toText ++ rest)) = some t := by
  cases t with
  | void =>
    have here : (utf8 (before ++ 'V' :: rest))[byteLength before + 0]? = some 'V'.toUInt8 :=
      getElem?_utf8 before ('V' :: rest)
    rw [TypeDescriptor.span, TypeDescriptor.toText, List.singleton_append, Span.type?]
    dsimp only
    rw [here]
    rfl
  | value t => exact type?_field before t rest

theorem mapM_field? (before : List Char) (ts : List FieldType) (rest : List Char) :
    (spans (byteLength before) ts).mapM
      (Span.field? (before ++ (ts.flatMap FieldType.toText ++ rest))) = some ts := by
  induction ts generalizing before with
  | nil => rfl
  | cons t ts ih =>
    have others := ih (before ++ t.toText)
    have first := type?_field before t (ts.flatMap FieldType.toText ++ rest)
    rw [byteLength_append, List.append_assoc] at others
    rw [spans, List.mapM_cons, List.flatMap_cons, List.append_assoc, Span.field?, first]
    dsimp only
    rw [others]
    rfl

end Descriptor

/-- **Reading by offsets finds the type that the text spells**, and cuts the text only at offsets of
characters. -/
theorem TypeDescriptor.ofBytes_eq (text : List Char) :
    TypeDescriptor.ofBytes text = some (TypeDescriptor.ofText text) := by
  have found : scanLastSpan text 0 = some ((TypeDescriptor.ofText text).map (·.span 0)) :=
    scanLastSpan_eq [] text
  rw [ofBytes, found]
  cases read : TypeDescriptor.ofText text with
  | error fault => rfl
  | ok t =>
    have back : (t.span 0).type? text = some t := by
      have whole := type?_eq [] t []
      rwa [List.append_nil, List.nil_append, ← (toText_of_scanLast read).1] at whole
    show (do return Except.ok (← (t.span 0).type? text)) = _
    rw [back]
    rfl

/-- **Reading by offsets finds the method type that the text spells**, and cuts the text only at
offsets of characters. -/
theorem MethodDescriptor.ofBytes_eq (text : List Char) :
    MethodDescriptor.ofBytes text = some (MethodDescriptor.ofText text) := by
  have parameters : (spans 1 (scanMethod text).parameters).mapM (Span.field? text) =
      some (scanMethod text).parameters := by
    rcases scanMethod_cases text with ⟨behind, split, -⟩ | unopened
    · have back := mapM_field? ['('] (scanMethod text).parameters behind
      rwa [List.singleton_append, ← split] at back
    · rw [unopened]
      rfl
  rw [ofBytes, walkMethod_eq]
  simp only [bind, Option.bind, parameters, ofText]
  cases read : (scanMethod text).ending with
  | error fault => rfl
  | ok result =>
    have back := type?_eq (front (scanMethod text).parameters) result []
    rw [List.append_nil, ← toText_eq_front, ← toText_of_scanMethod read] at back
    simp only [Except.map, back]
    rfl

/-- **Descriptors and types determine each other.** What is accepted is the text of the type that is
found, each type whose classes have possible names is found in its own text, and no reading cuts a
character in two. -/
theorem descriptors_spell_types (d : String) :
    (∀ t : TypeDescriptor, TypeDescriptor.parse d = .ok t ↔
      (∀ name ∈ t.elementName?.toList, IsClassName name) ∧ d = String.ofList t.toText) ∧
    (∀ t : MethodDescriptor, MethodDescriptor.parse d = .ok t ↔
      (∀ name ∈ t.names, IsClassName name) ∧ d = String.ofList t.toText) ∧
    TypeDescriptor.ofBytes d.toList = some (TypeDescriptor.ofText d.toList) ∧
    MethodDescriptor.ofBytes d.toList = some (MethodDescriptor.ofText d.toList) :=
  ⟨fun _ => TypeDescriptor.parse_eq_ok_iff_toText, fun _ => MethodDescriptor.parse_eq_ok_iff_toText,
    TypeDescriptor.ofBytes_eq d.toList, MethodDescriptor.ofBytes_eq d.toList⟩

-- The offset of the fault counts the two bytes of the letter in front of it.
example : MethodDescriptor.ofBytes "(Lä;ß)V".toList = some (.error (.unexpected 'ß' 5)) := by
  cbv

end Pseudonym
