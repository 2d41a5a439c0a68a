import Pseudonym.Proofs.Distinct

/-!
# Lambda expressions follow the methods they implement

The call site of a lambda expression bears the name of an interface method. It is looked up as that
method, but by the descriptor of the implementation and not by the one of the interface method,
which the first argument of the bootstrap method spells. The two differ as soon as the lambda
expression captures a variable. So the call site is called what the interface method with the
descriptor of the implementation is called (`Mapping.Calls`), and this is the name of the method that
is implemented if the mapping does not tell the two descriptors apart: generated names never do, and
a table does not if it gives both methods one name (`call_site_follows_method`).
-/

namespace Pseudonym

/-- The instruction in a place of a class: its method and its position there. -/
def ClassFile.instruction? (c : ClassFile) (i j : Nat) : Option Instruction :=
  c.methods[i]? >>= (·.instructions[j]?)

/-- What the call site of a lambda expression implements, by its type and its bootstrap method. -/
theorem lambdaTarget?_of_handle {descriptor interface : String} {bootstrap : Handle}
    (first : Constant) (h : Handle) (rest : List Constant) {callSite : MethodDescriptor}
    (lambda : bootstrap.isLambdaBootstrap = true)
    (read : MethodDescriptor.parse descriptor = .ok callSite)
    (result : callSite.result.internalName? = some interface) :
    lambdaTarget? descriptor bootstrap (first :: .handle h :: rest) =
      .ok (some (interface, h.descriptor)) := by
  rw [lambdaTarget?, if_pos lambda, read]
  simp only [bind, Except.bind, result]
  rfl

namespace Renamer

variable {r : Renamer} {c : ClassFile} {o : Remapped} {i j : Nat} {x : Instruction}

/-! ### Code behind the renaming -/

theorem instruction?_of_remap (h : r.remap c = .ok o) (i j : Nat) :
    o.result.instruction? i j = (c.instruction? i j).map (Instruction.renamed r.answer) := by
  rw [(of_remap h).2, ClassFile.instruction?, ClassFile.renamed, List.getElem?_map]
  cases found : c.methods[i]? with
  | none => simp [ClassFile.instruction?, found]
  | some d => simp [ClassFile.instruction?, found, Method.renamed]

/-- What an instruction mentions was answered. -/
theorem answered_of_instruction? (h : r.remap c = .ok o) (found : c.instruction? i j = some x)
    {q : Mention} (hq : q ∈ x.mentions) : (r.rename q).outcome = .ok (r.answer q) := by
  obtain ⟨d, hd, hx⟩ := Option.bind_eq_some_iff.1 found
  refine (of_remap h).1 q (Method.mem_mentions (List.mem_of_getElem? hd) ?_)
  have code : q ∈ d.instructions.flatMap Instruction.mentions :=
    List.mem_flatMap.2 ⟨x, List.mem_of_getElem? hx, hq⟩
  exact List.mem_flatten_of_mem (by simp) code

/-- A method is renamed to its new name. -/
theorem outcome_method (owner name d : String) :
    (r.rename (.method owner name d)).outcome = r.mapping.newName (.method owner name d) :=
  outcome_replace _ _

/-- A lambda expression is renamed to the new name of an interface method. -/
theorem outcome_callSite {name d interface target : String} {bootstrap : Handle}
    {arguments : List Constant}
    (h : lambdaTarget? d bootstrap arguments = .ok (some (interface, target))) :
    (r.rename (.callSite name d bootstrap arguments)).outcome =
      r.mapping.newName (.method interface name target) := by
  rw [rename, h, Traced.outcome_bind, Traced.outcome_lift, ← outcome_method]
  rfl

/-- A class is renamed if each of its mentions is answered. -/
theorem remap_of_answered (h : ∀ q ∈ c.mentions, ∃ text, (r.rename q).outcome = .ok text) :
    ∃ o, r.remap c = .ok o := by
  have answered : ∀ q ∈ c.mentions, (r.rename q).outcome = .ok (r.answer q) := by
    intro q hq
    obtain ⟨text, asked⟩ := h q hq
    rw [r.agrees_answer q text asked, asked]
  have walked := (ClassFile.outcome_renameM r.agrees_answer).2 ⟨answered, rfl⟩
  exact ⟨_, bind_eq_ok_iff.2 ⟨_, walked, rfl⟩⟩

end Renamer

/-! ### What a method is called -/

/-- Whether a method is called `new` after any renaming with the mapping: where it is declared, and
in every instruction that refers to it. -/
structure Mapping.Calls (mapping : Mapping) (owner name d new : String) : Prop where
  /-- Where the method is declared. -/
  declared {src : Option SymbolSource} {A : ClassFile} {A' : Remapped} {i : Nat} {method : Method}
    (hA : (Renamer.mk mapping src).remap A = .ok A') (hn : A.name = owner)
    (hi : A.methods[i]? = some method) (hm : method.name = name) (hd : method.descriptor = d) :
    A'.result.methods[i]?.map Method.name = some new
  /-- Where an instruction refers to the method. -/
  called {src : Option SymbolSource} {B : ClassFile} {B' : Remapped} {i j : Nat} {opcode : UInt8}
    {isInterface : Bool} (hB : (Renamer.mk mapping src).remap B = .ok B')
    (hj : B.instruction? i j = some (.method opcode owner name d isInterface)) :
    ∃ owner' d', B'.result.instruction? i j = some (.method opcode owner' new d' isInterface)

open Renamer (of_remap instruction?_of_remap answered_of_instruction? outcome_method
  outcome_callSite)

namespace Mapping

variable {mapping : Mapping} {owner name d new : String}

/-- **A method is called by its new name** in every class. -/
theorem calls_of_newName (h : mapping.newName (.method owner name d) = .ok new) :
    mapping.Calls owner name d new := by
  have answer (src : Option SymbolSource) :
      (Renamer.mk mapping src).answer (.method owner name d) = new :=
    Renamer.agrees_answer _ _ _ ((outcome_method ..).trans h)
  constructor
  case declared =>
    intro src A A' i method hA hn hi hm hd
    subst hn hm hd
    rw [(of_remap hA).2, ClassFile.renamed, List.getElem?_map, hi, ← answer src]
    rfl
  case called =>
    intro src B B' i j opcode isInterface hB hj
    rw [instruction?_of_remap hB, hj, ← answer src]
    exact ⟨_, _, rfl⟩

/-- A method whose descriptor can be renamed is called by nothing but its new name in a table. -/
theorem calls_table_iff {t : MappingTable} {src : Option SymbolSource} {s : String}
    (hd : ((Renamer.mk t.mapping src).rename (.methodDescriptor d)).outcome = .ok s) :
    t.mapping.Calls owner name d new ↔ t.methods[MethodKey.mk owner name d]?.getD name = new := by
  constructor
  · intro calls
    -- the smallest class that declares the method
    let A : ClassFile := { name := owner, methods := [{ name := name, descriptor := d }] }
    have found : t.mapping.newName (.method owner name d) =
        .ok (t.methods[MethodKey.mk owner name d]?.getD name) := rfl
    have mentions : A.mentions = [.class owner, .method owner name d, .methodDescriptor d] := rfl
    obtain ⟨A', hA⟩ : ∃ A', (Renamer.mk t.mapping src).remap A = .ok A' := by
      refine Renamer.remap_of_answered ?_
      simp only [mentions, List.forall_mem_cons, List.not_mem_nil, false_imp_iff, implies_true,
        and_true]
      exact ⟨⟨_, Renamer.outcome_replace _ _⟩, ⟨_, (outcome_method ..).trans found⟩, ⟨s, hd⟩⟩
    have name' := (calls_of_newName found).declared hA rfl (i := 0) rfl rfl rfl
    have new' := calls.declared hA rfl (i := 0) rfl rfl rfl
    exact Option.some.inj (name'.symm.trans new')
  · rintro rfl
    exact calls_of_newName rfl

end Mapping

/-! ### Call sites of lambda expressions -/

/-- **A lambda expression follows the method that it implements.**  After a successful renaming its
call site bears the name that the method of its interface, with the name at the call site and the
descriptor of the implementation, has everywhere. Under generated names this is the name of the
method with any other descriptor as well. Under a table it is the name of the method with the
descriptor of the functional interface exactly if the table has one name for both. -/
theorem call_site_follows_method (mapping : Mapping) (src : Option SymbolSource) {C : ClassFile}
    {C' : Remapped} {i j : Nat} {name descriptor interface d : String} {bootstrap h : Handle}
    {rest : List Constant} {callSite : MethodDescriptor}
    (hC : (Renamer.mk mapping src).remap C = .ok C')
    (site : C.instruction? i j =
      some (.invokeDynamic name descriptor bootstrap (.methodType d :: .handle h :: rest)))
    (lambda : bootstrap.isLambdaBootstrap = true)
    (read : MethodDescriptor.parse descriptor = .ok callSite)
    (result : callSite.result.internalName? = some interface) :
    ∃ new descriptor' bootstrap' arguments',
      C'.result.instruction? i j = some (.invokeDynamic new descriptor' bootstrap' arguments') ∧
      mapping.Calls interface name h.descriptor new ∧
      (∀ symbols m reserved, mapping = .generated symbols m reserved →
        mapping.Calls interface name d new) ∧
      ∀ t : MappingTable, mapping = t.mapping →
        (mapping.Calls interface name d new ↔
          t.methods[MethodKey.mk interface name d]?.getD name =
            t.methods[MethodKey.mk interface name h.descriptor]?.getD name) := by
  have target := lambdaTarget?_of_handle (.methodType d) h rest lambda read result
  have asked := answered_of_instruction? hC site (q := .callSite name descriptor bootstrap
    (.methodType d :: .handle h :: rest)) (by simp [Instruction.mentions])
  have spelled := answered_of_instruction? hC site (q := .methodDescriptor d)
    (by simp [Instruction.mentions, Constant.mentionsList, Constant.mentions])
  rw [outcome_callSite target] at asked
  have renamed := instruction?_of_remap hC i j
  rw [site, Option.map_some, Instruction.renamed] at renamed
  refine ⟨_, _, _, _, renamed, Mapping.calls_of_newName asked, ?_, ?_⟩
  · rintro symbols m reserved rfl
    exact Mapping.calls_of_newName asked
  · rintro t rfl
    have new : t.methods[MethodKey.mk interface name h.descriptor]?.getD name = _ :=
      Except.ok.inj asked
    rw [Mapping.calls_table_iff spelled, new]

/-- A class with a lambda expression that captures a number, and with a call of the method that the
lambda expression implements. -/
def capturingClass : ClassFile where
  name := "a/Main"
  methods := [
    { name := "main"
      descriptor := "()V"
      instructions := [
        .invokeDynamic "run" "(I)La/Task;"
          ⟨.invokeStatic, "java/lang/invoke/LambdaMetafactory", "metafactory", "()V", false⟩
          [.methodType "()V", .handle ⟨.invokeStatic, "a/Main", "lambda$0", "(I)V", false⟩,
            .methodType "()V"],
        .method 0xb9 "a/Task" "run" "()V" true] }]

theorem parse_capturing : MethodDescriptor.parse "(I)La/Task;" =
    .ok ⟨[⟨0, .primitive .int⟩], .value ⟨0, .object "a/Task"⟩⟩ :=
  toOption_eq_some_iff.1 (by decide +kernel)

/-- Under generated names the captured number makes no difference. -/
theorem call_site_follows_method_capturing :
    let symbols : SymbolSource :=
      { find? := fun _ => none, isPrimary := fun name => name == "a/Task", names := ["a/Task"] }
    let mapping := Mapping.generated symbols Markers.sample defaultReserved
    ∃ C' new descriptor bootstrap arguments owner d,
      (Renamer.mk mapping none).remap capturingClass = .ok C' ∧ new ≠ "run" ∧
      C'.result.instruction? 0 0 = some (.invokeDynamic new descriptor bootstrap arguments) ∧
      C'.result.instruction? 0 1 = some (.method 0xb9 owner new d true) := by
  intro symbols mapping
  have succeeds : ((Renamer.mk mapping none).remap capturingClass).toOption.isSome = true := by
    decide +kernel
  obtain ⟨C', remapped⟩ := Option.isSome_iff_exists.1 succeeds
  have hC := toOption_eq_some_iff.1 remapped
  obtain ⟨new, descriptor, bootstrap, arguments, site, _, generated, _⟩ :=
    call_site_follows_method mapping none hC (i := 0) (j := 0) rfl (by decide)
      parse_capturing rfl
  obtain ⟨owner, d, call⟩ := (generated symbols _ _ rfl).called hC (i := 0) (j := 1) rfl
  have renamed : ((Renamer.mk mapping none).remap capturingClass).toOption.map
      (fun o => (o.result.instruction? 0 1).map fun
        | .method _ _ name _ _ => name == "run"
        | _ => true) = some (some false) := by decide +kernel
  rw [remapped, Option.map_some, call] at renamed
  have different : new ≠ "run" := by simpa using renamed
  exact ⟨C', new, descriptor, bootstrap, arguments, owner, d, hC, different, site, call⟩

/-- Under a table it does: the method is renamed and the lambda expression keeps the old name. -/
theorem capturing_call_site_keeps_its_name :
    let t : MappingTable := .ofEntries [.method ⟨"a/Task", "run", "()V"⟩ "execute"]
    ∃ C' callSite descriptor bootstrap bootstrap' h rest arguments owner d,
      capturingClass.instruction? 0 0 =
        some (.invokeDynamic "run" descriptor bootstrap (.methodType "()V" :: .handle h :: rest)) ∧
      bootstrap.isLambdaBootstrap = true ∧ MethodDescriptor.parse descriptor = .ok callSite ∧
      callSite.result.internalName? = some "a/Task" ∧
      (Renamer.mk t.mapping none).remap capturingClass = .ok C' ∧
      C'.result.instruction? 0 0 = some (.invokeDynamic "run" descriptor bootstrap' arguments) ∧
      C'.result.instruction? 0 1 = some (.method 0xb9 owner "execute" d true) := by
  intro t
  have renamed : ((Renamer.mk t.mapping none).remap capturingClass).toOption.map
      (fun o => (o.result.instruction? 0 0, o.result.instruction? 0 1)) =
        some (capturingClass.instruction? 0 0, some (.method 0xb9 "a/Task" "execute" "()V" true)) := by
    decide +kernel
  obtain ⟨C', remapped, same⟩ := Option.map_eq_some_iff.1 renamed
  obtain ⟨site, call⟩ := Prod.mk.inj same
  exact ⟨C', _, _, _, _, _, _, _, _, _, rfl, by decide, parse_capturing, rfl,
    toOption_eq_some_iff.1 remapped, site, call⟩

end Pseudonym
