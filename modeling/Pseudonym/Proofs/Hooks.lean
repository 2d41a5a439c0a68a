import Pseudonym.Calls
import Pseudonym.Proofs.Malformed
import Pseudonym.Proofs.Slots
import Pseudonym.Proofs.Unmodified

/-!
# What a renamer remembers of its calls

A call looks symbols up, one after the other, until a look-up fails or its text turns out to be
malformed. The list of what it would do, if all went well, is known beforehand
(`Call.inquiries`): no answer decides what is asked next. What a call does is to go along the list,

    k.renameM r.rename  =  askAll r.inquire (k.inquiries r.symbols),

up to its result. A renamer counts as modified as soon as one of the symbols that a call came to got
another name (`Renamer.Replaces`), and it stays so if the call fails behind it.

If no call fails, this says whether any result differs from what was given, with one exception. In
a signature only a part of the new name of a nested class is written, and this part may be the old
one.
-/

namespace Pseudonym

open Descriptor

/-! ### What calls do -/

/-- A step of a call. -/
inductive Inquiry where
  | lookUp (symbol : Entity)
  /-- The text is malformed from here on. -/
  | stop (e : Error)

namespace Inquiry

/-- Looks classes up. -/
def classes (names : List String) : List Inquiry := names.map (.lookUp <| .class ·)

/-- What follows from something that may be malformed. -/
def after {α : Type} (x : Except Error α) (k : α → List Inquiry) : List Inquiry :=
  match x with
  | .ok a => k a
  | .error e => [.stop e]

end Inquiry

open Inquiry

def Descriptor.typeInquiries (d : String) : List Inquiry :=
  after (TypeDescriptor.parse d) fun t => classes t.elementName?.toList

/-- The parameters in front of a fault are looked up, the result only if there is none. -/
def Descriptor.methodInquiries (d : String) : List Inquiry :=
  classes ((scanMethod d.toList).parameters.filterMap (·.element.name?)) ++
    after (located d (scanMethod d.toList).ending) fun t => classes t.elementName?.toList

def Descriptor.inquiries (d : String) : List Inquiry :=
  if d.toList.head? = some '(' then methodInquiries d else typeInquiries d

/-- What is done to rename what a mention mentions. -/
def Mention.inquiries (symbols : Option SymbolSource) : Mention → List Inquiry
  | .class name => [.lookUp (.class name)]
  | .type name =>
    if name.toList.head? = some '[' then Descriptor.inquiries name else [.lookUp (.class name)]
  | .descriptor d => Descriptor.inquiries d
  | .methodDescriptor d => Descriptor.methodInquiries d
  | .signature s => classes (Signature.names s) ++ (Signature.fault? s).toList.map .stop
  | .field owner name d => [.lookUp (.field owner name d)]
  | .method owner name d => [.lookUp (.method owner name d)]
  | .component owner name d => [.lookUp (.component owner name d)]
  | .attribute d name =>
    after (internalName d) fun interface =>
      ((symbols.bind (·.find? interface)).bind (·.method? name)).toList.map
        (.lookUp <| .method interface name ·)
  | .enumConstant d name => after (internalName d) fun owner => [.lookUp (.field owner name d)]
  | .variable owner m md name d index => [.lookUp (.variable owner m md name d index)]
  | .callSite name d bootstrap arguments =>
    after (lambdaTarget? d bootstrap arguments) fun target =>
      target.toList.map fun (interface, d) => .lookUp (.method interface name d)
  | .package _ | .module _ => []

namespace Call

def mentions : Call → List Mention
  | .mention q => [q]
  | .handle h => h.mentions
  | .constant c => c.mentions

/-- What a call does, if all goes well. -/
def inquiries (symbols : Option SymbolSource) (k : Call) : List Inquiry :=
  k.mentions.flatMap (Mention.inquiries symbols)

/-- What a call is given, with answers in the places of names. -/
def renamed (g : Mention → String) : Call → Item
  | .mention q => .text (g q)
  | .handle h => .handle (h.renamed g)
  | .constant c => .constant (c.renamed g)

end Call

/-! ### A call goes along its inquiries -/

section

variable {κ ι ω α : Type} {f : κ → Traced ω String}

theorem askAll_map (k : ι → κ) (xs : List ι) : askAll f (xs.map k) = askAll (f <| k ·) xs := by
  induction xs with
  | nil => rfl
  | cons x xs ih => rw [List.map_cons, askAll, askAll, ih]

/-- Questions that are made of others. -/
theorem askAll_flatMap {h : ι → Traced ω String} {parts : ι → List κ}
    (each : ∀ x, (h x >>= fun _ => pure ()) = askAll f (parts x)) (xs : List ι) :
    askAll h xs = askAll f (xs.flatMap parts) := by
  induction xs with
  | nil => rfl
  | cons x xs ih =>
    rw [List.flatMap_cons, askAll_append, ← each, askAll, ih, bind_assoc]
    simp only [pure_bind]

theorem Asks.silenced {qs : List κ} {a : α} {x : Traced ω α} (hx : Asks f qs a x) :
    (x >>= fun _ => pure ()) = askAll f qs := by
  rw [hx, bind_assoc]
  simp only [pure_bind]
  exact bind_pure _

theorem askAll_singleton (q : κ) : askAll f [q] = f q >>= fun _ => pure () := rfl

end

namespace Renamer

variable (r : Renamer)

/-- Takes a step of a call. -/
def inquire : Inquiry → Traced Replacement String
  | .lookUp symbol => replace symbol.name (r.mapping.lookup symbol)
  | .stop e => .fail e

theorem askAll_classes (names : List String) :
    askAll r.inquire (classes names) = askAll r.className names :=
  askAll_map (fun name => lookUp (.class name)) names

theorem silenced_typeDescriptor (d : String) :
    (((·.getD d) <$> Descriptor.renameType r.className d) >>= fun _ => pure ()) =
      askAll r.inquire (Descriptor.typeInquiries d) := by
  unfold Descriptor.typeInquiries
  cases parsed : TypeDescriptor.parse d with
  | ok t =>
    rw [(asks_renameType r.agrees_className parsed).silenced]
    exact (r.askAll_classes _).symm
  | error e =>
    rw [renameType, parsed]
    rfl

theorem silenced_methodDescriptor (d : String) :
    (((·.getD d) <$> Descriptor.renameMethod r.className d) >>= fun _ => pure ()) =
      askAll r.inquire (Descriptor.methodInquiries d) := by
  unfold Descriptor.methodInquiries
  cases ending : (scanMethod d.toList).ending with
  | ok result =>
    let t : MethodDescriptor := ⟨(scanMethod d.toList).parameters, result⟩
    have asks := asks_renameMethod r.agrees_className (t := t) rfl ending
    have names : classes ((scanMethod d.toList).parameters.filterMap (·.element.name?)) ++
        classes result.elementName?.toList = classes t.names := List.map_append.symm
    rw [asks.silenced, ← askAll_classes, ← names]
    rfl
  | error fault =>
    rw [renameMethod_of_error r.className ending, askAll_append, askAll_classes]
    show (_ <$> (askAll r.className _ >>= fun _ => Traced.fail _)) >>= _ =
      askAll r.className _ >>= fun _ => .fail _
    rw [map_bind, bind_assoc]
    rfl

theorem silenced_descriptor (d : String) :
    (r.descriptor d >>= fun _ => pure ()) = askAll r.inquire (Descriptor.inquiries d) := by
  unfold descriptor Descriptor.rename Descriptor.inquiries
  split
  · exact r.silenced_methodDescriptor d
  · exact r.silenced_typeDescriptor d

theorem silenced_signature (s : String) :
    (Signature.rename r.className s >>= fun _ => pure ()) =
      askAll r.inquire ((Mention.signature s).inquiries r.symbols) := by
  rw [Signature.rename_eq_askAll r.agrees_className, Mention.inquiries, askAll_append,
    askAll_classes, bind_assoc]
  refine bind_congr fun _ => ?_
  cases Signature.fault? s with
  | none => rfl
  | some e => rfl

theorem silenced_lift_bind {α : Type} (x : Except Error α) {k : α → Traced Replacement String}
    {steps : α → List Inquiry}
    (each : ∀ a, (k a >>= fun _ => pure ()) = askAll r.inquire (steps a)) :
    ((Traced.lift x >>= k) >>= fun _ => pure ()) = askAll r.inquire (after x steps) := by
  cases x with
  | error e => rfl
  | ok a =>
    rw [bind_assoc]
    exact each a

/-- **Renaming what a mention mentions is to go along its inquiries.** -/
theorem silenced_rename (q : Mention) :
    (r.rename q >>= fun _ => pure ()) = askAll r.inquire (q.inquiries r.symbols) := by
  cases q with
  | «class» | field | method | component | «variable» => rfl
  | type name =>
    rw [rename, Mention.inquiries]
    split
    · exact r.silenced_descriptor name
    · rfl
  | descriptor d => exact r.silenced_descriptor d
  | methodDescriptor d => exact r.silenced_methodDescriptor d
  | signature s => exact r.silenced_signature s
  | «attribute» d name =>
    refine r.silenced_lift_bind _ fun interface => ?_
    cases (r.symbols.bind (·.find? interface)).bind (·.method? name) with
    | none => rfl
    | some d => rfl
  | enumConstant d name => exact r.silenced_lift_bind _ fun owner => rfl
  | callSite name d bootstrap arguments =>
    refine r.silenced_lift_bind _ fun target => ?_
    cases target with
    | none => rfl
    | some target => rfl
  | package | «module» => rfl

end Renamer

theorem Call.asks {ω : Type} {f : Mention → Traced ω String} {g : Mention → String}
    (hg : Agrees f g) (k : Call) : Asks f k.mentions (k.renamed g) (k.renameM f) := by
  cases k with
  | mention q => exact (Asks.ask hg q).map Call.Item.text
  | handle h => exact (h.asks hg).map Call.Item.handle
  | constant c => exact (c.asks hg).map Call.Item.constant

theorem Call.renamed_congr {g g' : Mention → String} (k : Call)
    (h : ∀ q ∈ k.mentions, g q = g' q) : k.renamed g = k.renamed g' :=
  Asks.congr (fun _ _ hg => k.asks hg) h

theorem Call.renamed_text (k : Call) : k.renamed Mention.text = k.given := by
  cases k with
  | mention q => rfl
  | handle h => exact congrArg Call.Item.handle h.renamed_text
  | constant c => exact congrArg Call.Item.constant c.renamed_text

namespace Renamer

variable {r : Renamer} {k : Call}

/-- **A call goes along its inquiries**, up to its result. -/
theorem silenced_call (r : Renamer) (k : Call) :
    (k.renameM r.rename >>= fun _ => pure ()) = askAll r.inquire (k.inquiries r.symbols) := by
  rw [(k.asks r.agrees_answer).silenced, Call.inquiries]
  exact askAll_flatMap r.silenced_rename k.mentions

theorem log_call (r : Renamer) (k : Call) :
    (k.renameM r.rename).log = (askAll r.inquire (k.inquiries r.symbols)).log := by
  rw [← silenced_call]
  cases outcome : (k.renameM r.rename).outcome with
  | ok item => rw [Traced.log_bind_ok outcome, Traced.log_pure, List.append_nil]
  | error e => rw [Traced.log_bind_error outcome]

/-! ### What calls replace -/

/-- Whether a call goes on behind a step. -/
def Answers (r : Renamer) : Inquiry → Prop
  | .lookUp symbol => ∃ found, r.mapping.lookup symbol = .ok found
  | .stop _ => False

/-- Whether a symbol gets another name. -/
def Changes (r : Renamer) (symbol : Entity) : Prop :=
  ∃ new, r.mapping.lookup symbol = .ok (some new) ∧ new ≠ symbol.name

/-- Whether a call comes to look a symbol up. -/
def Reaches (r : Renamer) (steps : List Inquiry) (symbol : Entity) : Prop :=
  ∃ before behind, steps = before ++ .lookUp symbol :: behind ∧ ∀ step ∈ before, r.Answers step

/-- Whether a call replaces the name of a symbol. -/
def Replaces (r : Renamer) (k : Call) (symbol : Entity) : Prop :=
  r.Reaches (k.inquiries r.symbols) symbol ∧ r.Changes symbol

theorem inquire_lookUp_log (symbol : Entity) :
    (r.inquire (.lookUp symbol)).log ≠ [] ↔ r.Changes symbol := by
  show (replace symbol.name (r.mapping.lookup symbol)).log ≠ [] ↔ _
  unfold Changes
  cases r.mapping.lookup symbol with
  | error e => simp [replace, Traced.lift, bind, Traced.bind]
  | ok found =>
    cases found with
    | none => simp [replace, Traced.lift, bind, Traced.bind, pure]
    | some new =>
      by_cases same : new = symbol.name
      · simp [replace, Traced.lift, bind, Traced.bind, same, pure]
      · rw [log_replace same]
        simp [same]

theorem inquire_lookUp_outcome {symbol : Entity} {found : Option String}
    (h : r.mapping.lookup symbol = .ok found) :
    (r.inquire (.lookUp symbol)).outcome = .ok (found.getD symbol.name) := by
  show (replace symbol.name (r.mapping.lookup symbol)).outcome = _
  rw [outcome_replace, h]
  rfl

theorem reaches_cons_iff {step : Inquiry} {steps : List Inquiry} {symbol : Entity} :
    r.Reaches (step :: steps) symbol ↔
      step = .lookUp symbol ∨ r.Answers step ∧ r.Reaches steps symbol := by
  constructor
  · rintro ⟨before, behind, split, answered⟩
    cases before with
    | nil =>
      obtain ⟨rfl, -⟩ := List.cons.inj split
      exact .inl rfl
    | cons first before =>
      obtain ⟨rfl, rfl⟩ := List.cons.inj split
      obtain ⟨here, there⟩ := List.forall_mem_cons.1 answered
      exact .inr ⟨here, before, behind, rfl, there⟩
  · rintro (rfl | ⟨here, before, behind, rfl, there⟩)
    · exact ⟨[], steps, rfl, by simp⟩
    · exact ⟨step :: before, behind, rfl, List.forall_mem_cons.2 ⟨here, there⟩⟩

/-- Something is logged on the way if a symbol that was come to changes. -/
theorem log_askAll_inquire {steps : List Inquiry} :
    (askAll r.inquire steps).log ≠ [] ↔ ∃ symbol, r.Reaches steps symbol ∧ r.Changes symbol := by
  induction steps with
  | nil => simp [askAll, Reaches]
  | cons step steps ih =>
    simp only [reaches_cons_iff]
    cases step with
    | stop e =>
      constructor
      · intro logged
        exact absurd rfl logged
      · rintro ⟨symbol, stops | ⟨answered, -⟩, -⟩
        · cases stops
        · exact answered.elim
    | lookUp symbol =>
      rw [askAll]
      cases looked : r.mapping.lookup symbol with
      | error e =>
        have failed : (r.inquire (.lookUp symbol)).outcome = .error e := by
          rw [inquire, outcome_replace, looked]
          rfl
        rw [Traced.log_bind_error failed, inquire_lookUp_log]
        constructor
        · intro changes
          exact ⟨symbol, .inl rfl, changes⟩
        · rintro ⟨other, same | ⟨⟨found, answered⟩, -⟩, changes⟩
          · obtain rfl := Inquiry.lookUp.inj same
            exact changes
          · rw [looked] at answered
            cases answered
      | ok found =>
        rw [Traced.log_bind_ok (inquire_lookUp_outcome looked), Ne, List.append_eq_nil_iff,
          not_and_or, ← Ne, ← Ne, inquire_lookUp_log, ih]
        constructor
        · rintro (changes | ⟨other, reached, changes⟩)
          · exact ⟨symbol, .inl rfl, changes⟩
          · exact ⟨other, .inr ⟨⟨found, looked⟩, reached⟩, changes⟩
        · rintro ⟨other, same | ⟨-, reached⟩, changes⟩
          · obtain rfl := Inquiry.lookUp.inj same
            exact .inl changes
          · exact .inr ⟨other, reached, changes⟩

/-- A call logs something exactly if it replaces a name. -/
theorem log_call_ne_nil_iff :
    (k.renameM r.rename).log ≠ [] ↔ ∃ symbol, r.Replaces k symbol := by
  rw [log_call, log_askAll_inquire]
  rfl

/-- After each call a renamer knows of all the names that were replaced so far. -/
theorem getElem?_calls {ks : List Call} {i : Nat} (hk : ks[i]? = some k) (isModified : Bool) :
    (r.calls isModified ks)[i]? = some ((k.renameM r.rename).outcome,
      isModified || (ks.take (i + 1)).any fun k => !(k.renameM r.rename).log.isEmpty) := by
  induction ks generalizing i isModified with
  | nil => cases hk
  | cons first ks ih =>
    rw [calls]
    cases i with
    | zero =>
      obtain rfl : first = k := Option.some.inj hk
      simp
    | succ i =>
      rw [List.getElem?_cons_succ] at hk ⊢
      rw [ih hk, List.take_succ_cons, List.any_cons, Bool.or_assoc]

/-! ### Results that are what was given -/

/-- A call that replaces nothing returns what it was given. -/
theorem eq_given_of_log {item : Call.Item} (h : (k.renameM r.rename).outcome = .ok item)
    (silent : (k.renameM r.rename).log = []) : item = k.given := by
  obtain ⟨rfl, stay⟩ :=
    (k.asks r.agrees_answer).eq_of_log_eq_nil r.agrees_answer keeps_rename h silent
  rw [k.renamed_congr stay, k.renamed_text]

/-- A name that was answered by itself was not replaced. -/
theorem log_replace_of_outcome {old : String} {found : Except Error (Option String)}
    (h : (replace old found).outcome = .ok old) : (replace old found).log = [] := by
  cases found with
  | error e => rfl
  | ok found =>
    cases found with
    | none => rfl
    | some new =>
      rw [outcome_replace] at h
      obtain rfl : new = old := Except.ok.inj h
      simp [replace, Traced.lift, bind, Traced.bind, pure]

/-- Questions that were answered by what was there before left no trace, if each of them leaves none
then. -/
theorem log_of_asks {κ α : Type} {f : κ → Traced Replacement String} {g text : κ → String}
    {qs : List κ} {a b : α} {x : Traced Replacement α} (hg : Agrees f g) (hx : Asks f qs a x)
    (h : x.outcome = .ok b) (stay : ∀ q ∈ qs, g q = text q)
    (silent : ∀ q ∈ qs, (f q).outcome = .ok (text q) → (f q).log = []) : x.log = [] := by
  have answered := ((hx.outcome hg).1 h).1
  rw [hx.log fun q hq => ⟨_, answered q hq⟩, List.flatMap_eq_nil_iff]
  intro q hq
  exact silent q hq (by rw [answered q hq, stay q hq])

theorem log_typeDescriptor {d : String}
    (h : ((·.getD d) <$> Descriptor.renameType r.className d).outcome = .ok d) :
    ((·.getD d) <$> Descriptor.renameType r.className d).log = [] := by
  obtain ⟨t, parsed, -, same⟩ := (outcome_renameType r.agrees_className).1 h
  exact log_of_asks r.agrees_className (asks_renameType r.agrees_className parsed) h
    (TypeDescriptor.stays parsed same.symm) fun name _ => log_replace_of_outcome

theorem log_methodDescriptor {d : String}
    (h : ((·.getD d) <$> Descriptor.renameMethod r.className d).outcome = .ok d) :
    ((·.getD d) <$> Descriptor.renameMethod r.className d).log = [] := by
  obtain ⟨t, parameters, read, -, same⟩ := (outcome_renameMethod r.agrees_className).1 h
  exact log_of_asks r.agrees_className (asks_renameMethod r.agrees_className parameters read) h
    (MethodDescriptor.stays (MethodDescriptor.parse_eq_ok_iff.2 ⟨parameters, read⟩) same.symm)
    fun name _ => log_replace_of_outcome

theorem log_descriptor {d : String} (h : (r.descriptor d).outcome = .ok d) :
    (r.descriptor d).log = [] := by
  unfold descriptor Descriptor.rename at h ⊢
  split
  · next method =>
    rw [if_pos method] at h
    exact log_methodDescriptor h
  · next type =>
    rw [if_neg type] at h
    exact log_typeDescriptor h

theorem log_lift_bind {α : Type} {x : Except Error α} {k : α → Traced Replacement String}
    {text : String} (each : ∀ a, (k a).outcome = .ok text → (k a).log = [])
    (h : (Traced.lift x >>= k).outcome = .ok text) : (Traced.lift x >>= k).log = [] := by
  obtain ⟨a, rfl, h⟩ := Traced.outcome_bind_eq_ok_iff.1 h
  exact each a h

/-- **A mention that comes out as it was was not replaced**, unless it is a signature. -/
theorem log_rename {q : Mention} (other : ∀ s, q ≠ .signature s)
    (h : (r.rename q).outcome = .ok q.text) : (r.rename q).log = [] := by
  cases q with
  | «class» | field | method | component | «variable» => exact log_replace_of_outcome h
  | type name =>
    rw [rename] at h ⊢
    split
    · next array =>
      rw [if_pos array] at h
      exact log_descriptor h
    · next plain =>
      rw [if_neg plain] at h
      exact log_replace_of_outcome h
  | descriptor d => exact log_descriptor h
  | methodDescriptor d => exact log_methodDescriptor h
  | signature s => exact absurd rfl (other s)
  | «attribute» d name =>
    refine log_lift_bind (fun interface h => ?_) h
    split at h
    · exact log_replace_of_outcome h
    · rfl
  | enumConstant d name => exact log_lift_bind (fun owner => log_replace_of_outcome) h
  | callSite name d bootstrap arguments =>
    refine log_lift_bind (fun target h => ?_) h
    split at h
    · exact log_replace_of_outcome h
    · rfl
  | package | «module» => rfl

end Renamer

section

variable {g : Mention → String}

theorem Handle.stays {h : Handle} (same : h.renamed g = h) : ∀ q ∈ h.mentions, g q = q.text := by
  have member : h.member.text = h.name := congrArg Handle.name h.renamed_text
  simp only [mentions, List.forall_mem_cons, List.not_mem_nil, false_imp_iff, implies_true,
    and_true, member]
  exact ⟨congrArg Handle.name same, congrArg Handle.owner same, congrArg Handle.descriptor same⟩

mutual

theorem Constant.stays : ∀ {c : Constant}, c.renamed g = c → ∀ q ∈ c.mentions, g q = q.text
  | .int _, _ | .long _, _ | .float _, _ | .double _, _ | .string _, _ => by
    simp [Constant.mentions]
  | .type d, same => by simpa [Constant.mentions, Constant.renamed, Mention.text] using same
  | .methodType d, same => by simpa [Constant.mentions, Constant.renamed, Mention.text] using same
  | .handle h, same => Handle.stays (Constant.handle.inj same)
  | .dynamic name d bootstrap arguments, same => by
    rw [Constant.renamed, Constant.dynamic.injEq] at same
    obtain ⟨-, ofDescriptor, ofBootstrap, ofArguments⟩ := same
    simp only [Constant.mentions, List.flatten_cons, List.flatten_nil, List.forall_mem_append,
      List.forall_mem_cons, List.append_nil]
    exact ⟨⟨ofDescriptor, by simp⟩, Handle.stays ofBootstrap, Constant.stays_list ofArguments⟩

theorem Constant.stays_list : ∀ {cs : List Constant}, Constant.renamedList g cs = cs →
    ∀ q ∈ Constant.mentionsList cs, g q = q.text
  | [], _ => by simp [Constant.mentionsList]
  | c :: cs, same => by
    obtain ⟨first, others⟩ := List.cons.inj same
    rw [Constant.mentionsList, List.forall_mem_append]
    exact ⟨Constant.stays first, Constant.stays_list others⟩

end

/-- A call that returns what it was given has all its mentions answered by what they were. -/
theorem Call.stays {k : Call} (same : k.renamed g = k.given) : ∀ q ∈ k.mentions, g q = q.text := by
  cases k with
  | mention q => simpa [mentions] using Item.text.inj same
  | handle h => exact Handle.stays (Item.handle.inj same)
  | constant c => exact Constant.stays (Item.constant.inj same)

end

/-! ### Signatures -/

theorem Handle.ne_signature {h : Handle} {s : String} : .signature s ∉ h.mentions := by
  have member : h.member ≠ .signature s := by
    unfold member
    split
    · simp
    · simp
  simp [mentions, member.symm]

mutual

theorem Constant.ne_signature {s : String} : ∀ {c : Constant}, .signature s ∉ c.mentions
  | .int _ | .long _ | .float _ | .double _ | .string _ | .type _ | .methodType _ => by
    simp [Constant.mentions]
  | .handle _ => Handle.ne_signature
  | .dynamic _ _ _ arguments => by
    simp [Constant.mentions, Handle.ne_signature, @Constant.ne_signature_list s arguments]

theorem Constant.ne_signature_list {s : String} : ∀ {cs : List Constant},
    .signature s ∉ Constant.mentionsList cs
  | [] => by simp [Constant.mentionsList]
  | c :: cs => by
    rw [Constant.mentionsList, List.mem_append, not_or]
    exact ⟨Constant.ne_signature, Constant.ne_signature_list⟩

end

namespace Renamer

variable {r : Renamer} {k : Call}

/-- **A call that returns what it was given replaces nothing**, unless it is about a signature. -/
theorem log_of_given (other : ∀ s, k ≠ .mention (.signature s))
    (h : (k.renameM r.rename).outcome = .ok k.given) : (k.renameM r.rename).log = [] := by
  have asks := k.asks r.agrees_answer
  have same : k.renamed r.answer = k.given := ((asks.outcome r.agrees_answer).1 h).2.symm
  refine log_of_asks r.agrees_answer asks h (Call.stays same) fun q hq => log_rename ?_
  rintro s rfl
  cases k with
  | mention q' =>
    obtain rfl := List.mem_singleton.1 hq
    exact other s rfl
  | handle h => exact Handle.ne_signature hq
  | constant c => exact Constant.ne_signature hq

/-- In a signature that comes out as it was, only nested classes can have got new names. -/
theorem of_signature_given {s : String} {symbol : Entity}
    (h : (r.rename (.signature s)).outcome = .ok s)
    (replaces : r.Replaces (.mention (.signature s)) symbol) :
    ∃ name, symbol = .class name ∧ name ∈ Signature.names s ∧
      name ∉ Signature.starts (Signature.scan s.toList).pieces := by
  obtain ⟨⟨before, behind, steps, -⟩, new, looked, changed⟩ := replaces
  have sound := Signature.fault_of_rename h
  have listed : .lookUp symbol ∈ classes (Signature.names s) := by
    have all : (Call.mention (.signature s)).inquiries r.symbols = classes (Signature.names s) := by
      simp [Call.inquiries, Call.mentions, Mention.inquiries, Signature.fault?, sound]
    rw [← all, steps]
    simp
  obtain ⟨name, named, same⟩ := List.mem_map.1 listed
  obtain rfl := Inquiry.lookUp.inj same
  refine ⟨name, rfl, named, fun start => changed ?_⟩
  have asks := Signature.asks_rename r.agrees_className sound
  have written := ((asks.outcome r.agrees_className).1 h).2
  have stays := (Signature.stays sound written.symm).1 name start
  have answered : (r.rename (.class name)).outcome = .ok new := inquire_lookUp_outcome looked
  rw [← r.agrees_answer _ _ answered]
  exact stays

end Renamer

/-! ### Calls that look up one symbol at most -/

/-- Whether no more than one symbol is looked up for a mention. -/
def Mention.isSingle : Mention → Bool
  | .descriptor d => d.toList.head? != some '('
  | .methodDescriptor _ | .signature _ => false
  | _ => true

theorem Inquiry.length_after_le {α : Type} {x : Except Error α} {k : α → List Inquiry}
    (h : ∀ a, (k a).length ≤ 1) : (after x k).length ≤ 1 := by
  cases x with
  | error e => exact Nat.le_refl 1
  | ok a => exact h a

theorem Inquiry.length_map_toList_le {α : Type} (f : α → Inquiry) (o : Option α) :
    (o.toList.map f).length ≤ 1 := by
  cases o <;> simp

theorem Descriptor.length_typeInquiries_le (d : String) : (typeInquiries d).length ≤ 1 :=
  length_after_le fun t => by
    rw [classes]
    exact length_map_toList_le _ t.elementName?

theorem Mention.length_inquiries_le {q : Mention} (h : q.isSingle = true)
    (symbols : Option SymbolSource) : (q.inquiries symbols).length ≤ 1 := by
  cases q with
  | «class» | field | method | component | «variable» => exact Nat.le_refl 1
  | type name =>
    rw [inquiries]
    split
    · next array =>
      rw [Descriptor.inquiries, if_neg (by rw [array]; simp)]
      exact Descriptor.length_typeInquiries_le name
    · exact Nat.le_refl 1
  | descriptor d =>
    rw [inquiries, Descriptor.inquiries, if_neg (by simpa [isSingle] using h)]
    exact Descriptor.length_typeInquiries_le d
  | methodDescriptor | signature => cases h
  | «attribute» d name => exact length_after_le fun _ => length_map_toList_le _ _
  | enumConstant d name => exact length_after_le fun _ => Nat.le_refl 1
  | callSite name d bootstrap arguments => exact length_after_le fun _ => length_map_toList_le _ _
  | package | «module» => exact Nat.zero_le 1

namespace Renamer

variable {r : Renamer}

/-- Where one symbol at most is looked up, a call that fails replaces nothing. -/
theorem not_replaces_of_error {q : Mention} {e : Error} (single : q.isSingle = true)
    (failed : (r.rename q).outcome = .error e) (symbol : Entity) :
    ¬ r.Replaces (.mention q) symbol := by
  rintro ⟨⟨before, behind, steps, -⟩, new, looked, -⟩
  have few := Mention.length_inquiries_le single r.symbols
  have own : (Call.mention q).inquiries r.symbols = q.inquiries r.symbols := by
    simp [Call.inquiries, Call.mentions]
  have only : q.inquiries r.symbols = [.lookUp symbol] := by
    rw [own] at steps
    rw [steps, List.length_append, List.length_cons] at few
    obtain rfl : before = [] := List.length_eq_zero_iff.1 (by omega)
    obtain rfl : behind = [] := List.length_eq_zero_iff.1 (by omega)
    exact steps
  have goes : (askAll r.inquire (q.inquiries r.symbols)).outcome = .ok () := by
    rw [only, askAll_singleton, Traced.outcome_bind, inquire_lookUp_outcome looked]
    rfl
  rw [← r.silenced_rename, Traced.outcome_bind, failed] at goes
  cases goes

/-- **A renamer counts as modified if a name was replaced**, by whatever call. A call that returns
another thing than it was given has replaced a name. A call that returns what it was given has not,
but for classes in a signature that stand behind a point. A call that fails has replaced the names
in front of the failure, and none where one symbol at most is looked up. -/
theorem modified_iff_replaces (r : Renamer) :
    (∀ (ks : List Call) (i : Nat) k, ks[i]? = some k →
      ∃ isModified, (r.calls false ks)[i]? = some ((k.renameM r.rename).outcome, isModified) ∧
        (isModified = true ↔ ∃ k ∈ ks.take (i + 1), ∃ symbol, r.Replaces k symbol)) ∧
    (∀ k item, (k.renameM r.rename).outcome = .ok item → item ≠ k.given →
      ∃ symbol, r.Replaces k symbol) ∧
    (∀ k symbol, (k.renameM r.rename).outcome = .ok k.given → r.Replaces k symbol →
      ∃ s name, k = .mention (.signature s) ∧ symbol = .class name ∧ name ∈ Signature.names s ∧
        name ∉ Signature.starts (Signature.scan s.toList).pieces) ∧
    (∀ (q : Mention) e symbol, q.isSingle = true → (r.rename q).outcome = .error e →
      ¬ r.Replaces (.mention q) symbol) := by
  refine ⟨?_, ?_, ?_, ?_⟩
  · intro ks i k hk
    refine ⟨_, getElem?_calls hk false, ?_⟩
    rw [Bool.false_or, List.any_eq_true]
    refine exists_congr fun k => and_congr_right fun _ => ?_
    rw [← log_call_ne_nil_iff]
    simp
  · intro k item h different
    refine log_call_ne_nil_iff.1 fun silent => different ?_
    exact eq_given_of_log h silent
  · intro k symbol h replaces
    by_cases signature : ∃ s, k = .mention (.signature s)
    · obtain ⟨s, rfl⟩ := signature
      obtain ⟨text, answered, same⟩ := Traced.outcome_map_eq_ok_iff.1 h
      obtain rfl : text = s := Call.Item.text.inj same
      obtain ⟨name, rest⟩ := of_signature_given answered replaces
      exact ⟨text, name, rfl, rest⟩
    · exact absurd (log_of_given (fun s same => signature ⟨s, same⟩) h)
        (log_call_ne_nil_iff.2 ⟨symbol, replaces⟩)
  · intro q e symbol single failed
    exact not_replaces_of_error single failed symbol

/-- A call that replaces nothing, one that fails behind a name that it replaced, one that returns
another text, and one that fails before it looks a class up. -/
theorem modified_iff_replaces_cut_off :
    let t : MappingTable := .ofEntries [.class "a/A" "b/B"]
    let r : Renamer := ⟨t.mapping, none⟩
    let stays : Call := .mention (.class "x/X")
    let fails : Call := .mention (.methodDescriptor "(La/A;")
    let changes : Call := .mention (.descriptor "[La/A;")
    (r.calls false [stays, fails]).map Prod.snd = [false, true] ∧
      (¬ ∃ k ∈ [stays], ∃ symbol, r.Replaces k symbol) ∧
      (∃ k ∈ [stays, fails], ∃ symbol, r.Replaces k symbol) ∧
      (∃ symbol, r.Replaces changes symbol) ∧
      ∀ symbol, ¬ r.Replaces (.mention (.descriptor "La/A")) symbol := by
  intro t r stays fails changes
  obtain ⟨flags, different, kept, failed⟩ := modified_iff_replaces r
  have known : (r.calls false [stays, fails]).map Prod.snd = [false, true] := by decide +kernel
  have after (i : Nat) {k : Call} (hk : [stays, fails][i]? = some k) :
      [false, true][i]? = some true ↔
        ∃ k ∈ [stays, fails].take (i + 1), ∃ symbol, r.Replaces k symbol := by
    obtain ⟨isModified, answered, replaced⟩ := flags [stays, fails] i k hk
    rw [← replaced, ← known, List.getElem?_map, answered, Option.map_some, Option.some.injEq]
  refine ⟨known, ?_, (after 1 rfl).1 rfl, ?_, ?_⟩
  · rintro ⟨k, hk, symbol, replaced⟩
    obtain rfl := List.mem_singleton.1 hk
    have same : (stays.renameM r.rename).outcome.toOption = some stays.given := by decide +kernel
    obtain ⟨s, name, signature, -⟩ := kept stays symbol (toOption_eq_some_iff.1 same) replaced
    exact absurd (Call.mention.inj signature) (by simp)
  · have renamed : (changes.renameM r.rename).outcome.toOption = some (.text "[Lb/B;") := by
      decide +kernel
    exact different changes _ (toOption_eq_some_iff.1 renamed) (by decide)
  · intro symbol
    have malformed : (error? (r.rename (.descriptor "La/A")).outcome).isSome = true := by
      decide +kernel
    obtain ⟨e, malformed⟩ := Option.isSome_iff_exists.1 malformed
    exact failed (.descriptor "La/A") e symbol (by decide) (error?_eq_some_iff.1 malformed)

/-- **Results do not say whether a renamer counts as modified.** It does after a call that failed,
and after a call that returned the signature that it was given: the class in front of the point
keeps its name, and all that is written of the new name of the other class is the old suffix. -/
theorem modified_without_result :
    let table (old new : String) : Renamer :=
      ⟨(MappingTable.ofEntries [.class old new]).mapping, none⟩
    (∃ e, (table "a/A" "b/B").calls false [.mention (.methodDescriptor "(La/A;")] =
      [(.error e, true)]) ∧
    (table "a/O$I" "b/I").calls false [.mention (.signature "La/O.I;")] =
      [(.ok (Call.given (.mention (.signature "La/O.I;"))), true)] := by
  intro table
  have single {r : Renamer} {k : Call} {outcome : Except Error Call.Item}
      (h : (k.renameM r.rename).outcome = outcome) (logged : (k.renameM r.rename).log ≠ []) :
      r.calls false [k] = [(outcome, true)] := by
    simp [calls, h, logged]
  constructor
  · have malformed : (error? ((Call.mention (.methodDescriptor "(La/A;")).renameM
        (table "a/A" "b/B").rename).outcome).isSome = true := by decide +kernel
    obtain ⟨e, malformed⟩ := Option.isSome_iff_exists.1 malformed
    exact ⟨e, single (error?_eq_some_iff.1 malformed) (by decide +kernel)⟩
  · have renamed : ((Call.mention (.signature "La/O.I;")).renameM
        (table "a/O$I" "b/I").rename).outcome.toOption = some (.text "La/O.I;") := by decide +kernel
    exact single (toOption_eq_some_iff.1 renamed) (by decide +kernel)

end Renamer

end Pseudonym
