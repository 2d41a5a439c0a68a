import Pseudonym.Mapping.Table
import Pseudonym.Proofs.Renamer
import Pseudonym.Proofs.Signature

/-!
# A class that counts as unmodified is unchanged

Renaming writes every part of a class anew and notes on the way which names were replaced. Where
nothing is noted, nothing may have changed,

    (x.outcome = .ok s) → (x.log = []) → s = text,

and then bytes can stay as they are. For a name this is how `Renamer.replace` is written. For a
descriptor and for a signature it says that the text is put together again from classes that stay
(`Descriptor.asks_renameType`, `Descriptor.asks_renameMethod`, `Signature.renamedPieces_scan`), and
for a class that all parts find their places again (`ClassFile.renamed_text`).
-/

namespace Pseudonym

/-- A computation that returns a given text if it leaves no trace. -/
def Traced.Keeps {ω : Type} (x : Traced ω String) (text : String) : Prop :=
  ∀ s, x.outcome = .ok s → x.log = [] → s = text

/-- Questions that were answered without a trace were all answered by what was there before. -/
theorem Asks.eq_of_log_eq_nil {κ ω α : Type} {f : κ → Traced ω String} {g text : κ → String}
    {qs : List κ} {a b : α} {x : Traced ω α} (hx : Asks f qs a x) (hg : Agrees f g)
    (keeps : ∀ q, (f q).Keeps (text q)) (h : x.outcome = .ok b) (silent : x.log = []) :
    b = a ∧ ∀ q ∈ qs, g q = text q := by
  obtain ⟨answered, rfl⟩ := (hx.outcome hg).1 h
  refine ⟨rfl, fun q hq => ?_⟩
  have logs := hx.log fun q hq => ⟨_, answered q hq⟩
  rw [silent] at logs
  exact keeps q _ (answered q hq) (List.flatMap_eq_nil_iff.1 logs.symm q hq)

namespace Renamer

open Descriptor

variable {r : Renamer}

/-! ### What a single mention leaves behind -/

theorem keeps_pure (text : String) : (pure text : Traced Replacement String).Keeps text :=
  fun _ h _ => (Except.ok.inj h).symm

theorem keeps_lift_bind {α : Type} {x : Except Error α} {k : α → Traced Replacement String}
    {text : String} (h : ∀ a, (k a).Keeps text) : (Traced.lift x >>= k).Keeps text := by
  intro s found silent
  obtain ⟨a, rfl, found⟩ := Traced.outcome_bind_eq_ok_iff.1 found
  exact h a s found silent

theorem keeps_replace (old : String) (found : Except Error (Option String)) :
    (replace old found).Keeps old := by
  refine keeps_lift_bind fun new => ?_
  cases new with
  | none => exact keeps_pure old
  | some new =>
    by_cases same : new = old
    · simp only [if_pos same]
      exact keeps_pure old
    · simp only [if_neg same]
      intro s _ silent
      cases silent

theorem keeps_className (name : String) : (r.className name).Keeps name := keeps_replace _ _

theorem keeps_of_asks {names : List String} {answer text : String} {x : Traced Replacement String}
    (hx : Asks r.className names answer x)
    (same : (∀ name ∈ names, r.answer (.class name) = name) → answer = text) : x.Keeps text := by
  intro s found silent
  obtain ⟨rfl, stay⟩ := hx.eq_of_log_eq_nil r.agrees_className keeps_className found silent
  exact same stay

theorem keeps_typeDescriptor (d : String) :
    ((·.getD d) <$> Descriptor.renameType r.className d).Keeps d := by
  intro s found
  obtain ⟨t, parsed, -, -⟩ := (outcome_renameType r.agrees_className).1 found
  refine keeps_of_asks (asks_renameType r.agrees_className parsed) (fun stay => ?_) s found
  rw [TypeDescriptor.renamed_of_stay stay, ← (toText_of_parse parsed).1, String.ofList_toList]

theorem keeps_methodDescriptor (d : String) :
    ((·.getD d) <$> Descriptor.renameMethod r.className d).Keeps d := by
  intro s found
  obtain ⟨t, parameters, read, -, -⟩ := (outcome_renameMethod r.agrees_className).1 found
  refine keeps_of_asks (asks_renameMethod r.agrees_className parameters read) (fun stay => ?_) s
    found
  have written := toText_of_scanMethod read
  rw [parameters] at written
  rw [MethodDescriptor.renamed_of_stay stay, ← written, String.ofList_toList]

theorem keeps_descriptor (d : String) : (r.descriptor d).Keeps d := by
  unfold descriptor Descriptor.rename
  split
  · exact keeps_methodDescriptor d
  · exact keeps_typeDescriptor d

theorem keeps_signature (signature : String) :
    (Signature.rename r.className signature).Keeps signature := by
  intro s found
  have sound := Signature.fault_of_rename found
  refine keeps_of_asks (Signature.asks_rename r.agrees_className sound) (fun stay => ?_) s found
  rw [Signature.renamedPieces_scan sound stay, String.ofList_toList]

/-- **A mention that is answered without a trace keeps its text.** -/
theorem keeps_rename (q : Mention) : (r.rename q).Keeps q.text := by
  cases q with
  | «class» name => exact keeps_replace _ _
  | type name =>
    rw [rename]
    split
    · exact keeps_descriptor name
    · exact keeps_replace _ _
  | descriptor d => exact keeps_descriptor d
  | methodDescriptor d => exact keeps_methodDescriptor d
  | signature s => exact keeps_signature s
  | field owner name d => exact keeps_replace _ _
  | method owner name d => exact keeps_replace _ _
  | component owner name d => exact keeps_replace _ _
  | «attribute» d name =>
    refine keeps_lift_bind fun interface => ?_
    split
    · exact keeps_replace _ _
    · exact keeps_pure name
  | enumConstant d name => exact keeps_lift_bind fun owner => keeps_replace _ _
  | «variable» owner methodName methodDescriptor name d index => exact keeps_replace _ _
  | callSite name d bootstrap arguments =>
    refine keeps_lift_bind fun target => ?_
    split
    · exact keeps_replace _ _
    · exact keeps_pure name
  | package name => exact keeps_pure name
  | «module» name => exact keeps_pure name

/-! ### Whole classes -/

theorem result_of_not_modified {c : ClassFile} {o : Remapped} (h : r.remap c = .ok o)
    (kept : o.isModified = false) : o.result = c := by
  obtain ⟨result, walked, done⟩ := bind_eq_ok_iff.1 h
  obtain rfl := pure_eq_ok_iff.1 done
  have silent : (c.renameM r.rename).log = [] := by simpa using kept
  obtain ⟨same, stay⟩ :=
    (c.asks r.agrees_answer).eq_of_log_eq_nil r.agrees_answer keeps_rename walked silent
  rw [same, ClassFile.renamed_congr stay, c.renamed_text]

theorem remapBytes_of_remap {codec : ClassCodec} {bytes : ByteArray} {c : ClassFile} {o : Remapped}
    (read : codec.read bytes = .ok c) (h : r.remap c = .ok o) :
    r.remapBytes codec bytes = if o.isModified then codec.write o.result else .ok bytes := by
  unfold remapBytes
  simp only [read, h, bind, Except.bind]
  rfl

/-- **A class that counts as unmodified is unchanged**, whatever the mapping answers and wherever
annotation interfaces are looked up. So bytes that stay as they are hold the very class that would
have been written in their place. -/
theorem unmodified_is_unchanged (r : Renamer) :
    (∀ c o, r.remap c = .ok o → o.isModified = false → o.result = c) ∧
    (∀ (codec : ClassCodec) (bytes : ByteArray) c o, codec.read bytes = .ok c →
      r.remap c = .ok o → o.isModified = false →
        r.remapBytes codec bytes = .ok bytes ∧ codec.read bytes = .ok o.result) := by
  refine ⟨fun c o => result_of_not_modified, ?_⟩
  intro codec bytes c o read h kept
  refine ⟨?_, by rw [read, result_of_not_modified h kept]⟩
  rw [remapBytes_of_remap read h, kept]
  rfl

/-- Classes that keep their names, one of them by an entry of the table, in a signature with a class
nested in a generic one. -/
theorem unmodified_is_unchanged_generic :
    let t : MappingTable := .ofEntries [.class "a/Outer" "a/Outer", .class "b/B" "b/C"]
    let c : ClassFile :=
      { name := "a/Main"
        signature := some "<T:Ljava/lang/Object;>La/Outer<TT;[I>.Inner<*>;"
        superName := some "a/Outer$Inner"
        innerClasses := [⟨"a/Outer$Inner", some "a/Outer", some "Inner", 1⟩]
        fields := [{ name := "x", descriptor := "[La/Outer;", signature := some "TT;" }]
        methods := [{ name := "run", descriptor := "(La/Outer$Inner;J)V" }] }
    let codec : ClassCodec :=
      { read := fun _ => .ok c, write := fun _ => .error (.alreadyRenamed "a/Main") }
    let bytes : ByteArray := ⟨#[202, 254]⟩
    ∃ o, (mk t.mapping none).remap c = .ok o ∧ o.isModified = false ∧ o.result = c ∧
      (mk t.mapping none).remapBytes codec bytes = .ok bytes ∧ codec.read bytes = .ok o.result := by
  intro t c codec bytes
  have kept : ((mk t.mapping none).remap c).toOption.map (·.isModified) = some false := by
    decide +kernel
  obtain ⟨o, remapped, kept⟩ := Option.map_eq_some_iff.1 kept
  have h := toOption_eq_some_iff.1 remapped
  obtain ⟨unchanged, fast⟩ := unmodified_is_unchanged (mk t.mapping none)
  exact ⟨o, h, kept, unchanged c o h kept, fast codec bytes c o rfl h kept⟩

end Renamer

end Pseudonym
