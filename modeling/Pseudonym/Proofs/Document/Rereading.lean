import Pseudonym.Document
import Pseudonym.Filter
import Pseudonym.Markers.Seeded
import Pseudonym.Proofs.Document.Lasting
import Pseudonym.Proofs.Document.RoundTrip
import Pseudonym.Proofs.Guarded
import Pseudonym.Proofs.Handoff.Table
import Pseudonym.Proofs.Unmodified

/-!
# A chain reads what it wrote

In a chain every filter reads what the one before it left, and whether that was written anew depends
on what the one before it found to change. A class stays lasting on the way,

    read bytes = .ok c  →  f.filterContent bytes = .ok out  →  read out = .ok d,

where `c` and then `d` are lasting. So no filter of the chain fails to read, and what comes out can be
read as well. A chain can still fail: a descriptor is malformed, or a name was replaced before.

A class that was read is lasting if none of its `float` constants is infinite and no annotation
without values stands on the last level. Any other class is refused as soon as a filter has written
it (`FilterChain.refuses_what_it_wrote`).
-/

namespace Pseudonym

open Document Json

/-- Whether a class could not be read. -/
def Error.IsUnreadable (e : Error) : Prop := ∃ name details, e = .unreadableClass name details

/-- A document that holds a lasting class. -/
def HoldsLasting (bytes : ByteArray) : Prop :=
  ∃ c, (documentCodec none).read bytes = .ok c ∧ c.IsLasting

/-- What is read does not depend on the layout that is written. -/
theorem documentCodec_read (layout : Layout) (bytes : ByteArray) :
    (documentCodec layout).read bytes = (documentCodec none).read bytes := rfl

/-- A class that was read is lasting if its floating point constants can be written and it has room
for its annotations. -/
theorem isLasting_of_read {layout : Layout} {bytes : ByteArray} {c : ClassFile}
    (read : (documentCodec layout).read bytes = .ok c) (singles : HasFiniteSingles c.floating)
    (free : maxDepth ∉ c.bareDepths) : c.IsLasting := by
  obtain ⟨v, -, read⟩ := documentCodec_read_eq_ok_iff.1 read
  have sound := staysSound_classFile c _ v read (by decide) free
  exact ⟨sound, allFinite_iff.2 ⟨singles, gives_classFile _ v c read⟩⟩

/-- A lasting class is written as a document that holds a lasting class. -/
theorem ClassFile.IsLasting.write {c : ClassFile} (h : c.IsLasting) (layout : Layout) :
    ∃ out, (documentCodec layout).write c = .ok out ∧ HoldsLasting out := by
  refine ⟨_, rfl, c.settled, ?_, h.settled⟩
  rw [← documentCodec_read layout, documentCodec_read_render (isWritten_ofClass c)]
  exact rereadsAs_classFile h.finite _ h.sound

/-- An outcome that is a document with a lasting class, or a failure that is not about reading. -/
def StaysReadable (x : Except Error ByteArray) : Prop :=
  FailsOnly (¬ ·.IsUnreadable) x ∧ ∀ out, x = .ok out → HoldsLasting out

theorem staysReadable_ok {bytes : ByteArray} (h : HoldsLasting bytes) :
    StaysReadable (.ok bytes) :=
  ⟨.of_ok rfl, fun _ same => Except.ok.inj same ▸ h⟩

theorem staysReadable_error {e : Error} (h : ¬ e.IsUnreadable) : StaysReadable (.error e) :=
  ⟨.error h, fun _ same => nomatch same⟩

theorem ClassFile.IsLasting.staysReadable_write {c : ClassFile} (h : c.IsLasting)
    (layout : Layout) : StaysReadable ((documentCodec layout).write c) := by
  obtain ⟨out, written, holds⟩ := h.write layout
  rw [written]
  exact staysReadable_ok holds

/-! ### One filter -/

theorem not_isUnreadable_malformedDescriptor (d : String) (fault : DescriptorFault) :
    ¬ (Error.malformedDescriptor d fault).IsUnreadable := by
  rintro ⟨name, details, ⟨⟩⟩

theorem not_isUnreadable_of_integrity {e : Error} (h : e.isIntegrityViolation = true) :
    ¬ e.IsUnreadable := by
  rintro ⟨name, details, rfl⟩
  cases h

theorem Renamer.staysReadable_remapBytes {r : Renamer}
    (hr : r.mapping.FailsOnly (¬ ·.IsUnreadable)) (layout : Layout) {bytes : ByteArray}
    (h : HoldsLasting bytes) : StaysReadable (r.remapBytes (documentCodec layout) bytes) := by
  obtain ⟨c, read, lasting⟩ := h
  cases remapped : r.remap c with
  | error e =>
    have failed : r.remapBytes (documentCodec layout) bytes = .error e := by
      rw [remapBytes, documentCodec_read, read]
      show (r.remap c >>= _) = _
      rw [remapped]
      rfl
    rw [failed]
    exact staysReadable_error
      (failsOnly_remap not_isUnreadable_malformedDescriptor hr c e remapped)
  | ok o =>
    have read_again : (documentCodec layout).read bytes = .ok c := read
    rw [remapBytes_of_remap read_again remapped]
    split
    · rw [(of_remap remapped).2]
      exact (lasting.renamed _).staysReadable_write layout
    · exact staysReadable_ok ⟨c, read, lasting⟩

theorem staysReadable_strippedContent (config : StripConfig) (layout : Layout) {bytes : ByteArray}
    (h : HoldsLasting bytes) :
    StaysReadable (Filter.strippedContent config (documentCodec layout) bytes) := by
  obtain ⟨c, read, lasting⟩ := h
  have content : Filter.strippedContent config (documentCodec layout) bytes =
      if config.touches c then (documentCodec layout).write (config.strip c) else .ok bytes := by
    rw [Filter.strippedContent, documentCodec_read, read]
    rfl
  rw [content]
  split
  · exact (lasting.strip config).staysReadable_write layout
  · exact staysReadable_ok ⟨c, read, lasting⟩

section

variable {m : Type → Type} [Monad m]

/-- The filters there are, over class documents. Each writes in a layout of its own. -/
inductive Filter.OnDocuments : Filter m → Prop where
  | transparent (markers : Markers) (reserved : List String) (layout : Layout) :
    OnDocuments (.transparent markers reserved (documentCodec layout))
  | table {t : MappingTable} {layout : Layout} {f : Filter m}
    (made : Filter.table t (documentCodec layout) = .ok f) : OnDocuments f
  | strip (config : StripConfig) (layout : Layout) :
    OnDocuments (.strip config (documentCodec layout))

/-- A filter leaves a lasting class or fails for another reason than reading. -/
theorem Filter.OnDocuments.staysReadable {f : Filter m} (hf : f.OnDocuments)
    (symbols : SymbolSource) (info : ClassInfo) {bytes : ByteArray} (h : HoldsLasting bytes) :
    ∃ outcome, f.filterContent symbols info bytes = settle outcome ∧ StaysReadable outcome := by
  cases hf with
  | transparent markers reserved layout =>
    refine ⟨_, rfl, ?_⟩
    unfold tokenContent
    split
    · exact Renamer.staysReadable_remapBytes
        (Mapping.isGuarded_generated.failsOnly fun _ => not_isUnreadable_of_integrity) layout h
    · exact staysReadable_ok h
  | @table t layout _ made =>
    obtain ⟨inverse, -, done⟩ := bind_eq_ok_iff.1 made
    obtain rfl := pure_eq_ok_iff.1 done
    exact ⟨_, rfl, Renamer.staysReadable_remapBytes (t.failsOnly_mapping _) layout h⟩
  | strip config layout => exact ⟨_, rfl, staysReadable_strippedContent config layout h⟩

/-! ### Chains -/

variable [LawfulMonad m]

theorem FilterChain.exists_staysReadable {chain : FilterChain m} (hc : ∀ f ∈ chain, f.OnDocuments)
    (symbols : SymbolSource) (info : ClassInfo) {bytes : ByteArray} (h : HoldsLasting bytes) :
    ∃ outcome, chain.applyContent symbols info bytes = Filter.settle outcome ∧
      StaysReadable outcome := by
  induction chain generalizing bytes with
  | nil => exact ⟨.ok bytes, rfl, staysReadable_ok h⟩
  | cons f chain ih =>
    rw [List.forall_mem_cons] at hc
    obtain ⟨first, called, readable⟩ := hc.1.staysReadable symbols info h
    rw [applyContent, List.foldlM_cons, called]
    cases first with
    | error e => exact ⟨.error e, settle_error_bind e _, readable⟩
    | ok out =>
      obtain ⟨outcome, applied, readable⟩ := ih hc.2 (readable.2 out rfl)
      exact ⟨outcome, (settle_ok_bind out _).trans applied, readable⟩

/-- **A chain reads what it wrote**, whatever filters there are in it and however often. It may
fail, but not because a class cannot be read, and if it does not, what comes out can be read. -/
theorem FilterChain.rereads {chain : FilterChain m} (hc : ∀ f ∈ chain, f.OnDocuments)
    (symbols : SymbolSource) (info : ClassInfo) {layout : Layout} {bytes : ByteArray}
    {c : ClassFile} (read : (documentCodec layout).read bytes = .ok c)
    (singles : HasFiniteSingles c.floating) (free : maxDepth ∉ c.bareDepths) :
    ∃ outcome, (chain.applyContent symbols info bytes).run = pure outcome ∧
      (∀ name details, outcome ≠ .error (.unreadableClass name details)) ∧
      ∀ out, outcome = .ok out → ∃ d, (documentCodec layout).read out = .ok d := by
  have lasting : HoldsLasting bytes := ⟨c, read, isLasting_of_read read singles free⟩
  obtain ⟨outcome, applied, fails, holds⟩ := exists_staysReadable hc symbols info lasting
  refine ⟨outcome, ?_, ?_, ?_⟩
  · rw [applied]
    rfl
  · rintro name details rfl
    exact fails _ rfl ⟨name, details, rfl⟩
  · intro out done
    obtain ⟨d, read, -⟩ := holds out done
    exact ⟨d, read⟩

end

/-- A class document with the least `float`, the greatest `double` and something for each filter to
change. -/
def edgeDocument : Value :=
  .record [("name", .text "a/Main"), ("super_name", .text "x/Super"),
    ("source_file", .text "Main.java"),
    ("fields", .array [
      .record [("name", .text "least"), ("descriptor", .text "F"),
        ("value", tag "float" (.number ⟨false, [1], [], some (-45)⟩))],
      .record [("name", .text "greatest"), ("descriptor", .text "D"),
        ("value", tag "double"
          (.number ⟨false, [1], [7, 9, 7, 6, 9, 3, 1, 3, 4, 8, 6, 2, 3, 1, 5, 7], some 308⟩))]])]

/-- What the document says. -/
def edgeClass : ClassFile :=
  { name := "a/Main"
    superName := some "x/Super"
    sourceFile := some "Main.java"
    fields := [
      { name := "least", descriptor := "F", value := some (.float 1) },
      { name := "greatest", descriptor := "D", value := some (.double 0x7FEFFFFFFFFFFFFF) }] }

theorem isWritten_edgeDocument : edgeDocument.IsWritten := by
  have least : (Value.number ⟨false, [1], [], some (-45)⟩).IsWritten :=
    ⟨⟨by decide, by decide, by decide⟩, by decide⟩
  have greatest : (Value.number
      ⟨false, [1], [7, 9, 7, 6, 9, 3, 1, 3, 4, 8, 6, 2, 3, 1, 5, 7], some 308⟩).IsWritten :=
    ⟨⟨by decide, by decide, by decide⟩, by decide⟩
  simp [edgeDocument, least, greatest]

theorem hasFiniteSingles_edgeClass : HasFiniteSingles edgeClass.floating := by
  intro bits hb
  have constants : edgeClass.floating = [.float 1, .double 0x7FEFFFFFFFFFFFFF] := by decide +kernel
  rw [constants] at hb
  simp only [List.mem_cons, Constant.float.injEq, reduceCtorEq, List.not_mem_nil, or_false] at hb
  subst hb
  decide

theorem read_edgeDocument : (documentCodec none).read (compact edgeDocument) = .ok edgeClass :=
  read_compact isWritten_edgeDocument (by decide +kernel)

/-- The three filters one after the other, each with something to change. -/
theorem FilterChain.rereads_edge :
    let info := ClassInfo.ofClass edgeClass (compact edgeDocument)
    let w := ({} : Workspace).addPrimary info
    ∃ f : Filter Id, Filter.table (.ofEntries [.class "x/Super" "y/Super"]) (documentCodec none) =
        .ok f ∧
      let chain : FilterChain Id := [.transparent (.seeded 7) defaultReserved (documentCodec none),
        f, .strip {} (documentCodec (some 0))]
      (∀ g ∈ chain, g.OnDocuments) ∧
        (documentCodec none).read (compact edgeDocument) = .ok edgeClass ∧
        HasFiniteSingles edgeClass.floating ∧ maxDepth ∉ edgeClass.bareDepths ∧
        ∃ outcome, (chain.applyContent w.symbols info (compact edgeDocument)).run = pure outcome ∧
          (∀ name details, outcome ≠ .error (.unreadableClass name details)) ∧
          ∀ out, outcome = .ok out → ∃ d, (documentCodec none).read out = .ok d := by
  intro info w
  obtain ⟨f, made⟩ := Filter.exists_table
    (t := .ofEntries [.class "x/Super" "y/Super"]) (by decide +kernel) (documentCodec none)
  have free : maxDepth ∉ edgeClass.bareDepths := by decide +kernel
  refine ⟨f, made, ?_⟩
  intro chain
  have each : ∀ g ∈ chain, g.OnDocuments := by
    simp only [chain, List.forall_mem_cons]
    exact ⟨.transparent _ _ none, .table made, .strip {} (some 0), by simp⟩
  exact ⟨each, read_edgeDocument, hasFiniteSingles_edgeClass, free,
    FilterChain.rereads each w.symbols info read_edgeDocument hasFiniteSingles_edgeClass free⟩

/-! ### Classes that do not last -/

theorem read_compact_error {v : Value} (written : v.IsWritten)
    (refused : classFile ⟨maxDepth, false⟩ v = none) :
    ∃ details, (documentCodec none).read (compact v) = .error (.unreadableClass none details) := by
  refine ⟨"the text is no class document", ?_⟩
  have unread : Document.read? classFile (compact v) = none := by
    rw [Document.read?, compact, Value.ofBytes?_render written]
    exact refused
  rw [documentCodec_read_eq, unread]

/-- What a filter that removes debug data writes may be refused by the next one. -/
theorem applyContent_strip_strip {v : Value} {c : ClassFile} (written : v.IsWritten)
    (read : classFile ⟨maxDepth, false⟩ v = some c) (touched : StripConfig.touches {} c = true)
    (refused : classFile ⟨maxDepth, false⟩ (ofClass (StripConfig.strip {} c)) = none)
    (symbols : SymbolSource) (info : ClassInfo) :
    let stripping : Filter Id := .strip {} (documentCodec none)
    ∃ details, (FilterChain.applyContent [stripping, stripping] symbols info (compact v)).run =
      .error (.unreadableClass none details) := by
  have applied (config : StripConfig) (codec : ClassCodec) (bytes : ByteArray) :
      FilterChain.applyContent [Filter.strip config codec, .strip config codec] symbols info bytes =
        (Filter.settle (Filter.strippedContent config codec bytes >>=
          Filter.strippedContent config codec) : ExceptT Error Id ByteArray) := by
    rw [FilterChain.applyContent, settle_bind]
    simp only [List.foldlM_cons, List.foldlM_nil, bind_pure]
    rfl
  have first : Filter.strippedContent {} (documentCodec none) (compact v) =
      .ok (compact (ofClass (StripConfig.strip {} c))) := by
    rw [Filter.strippedContent, read_compact written read]
    show (if StripConfig.touches {} c then _ else _) = _
    rw [touched]
    rfl
  obtain ⟨details, reread⟩ :=
    read_compact_error (isWritten_ofClass (StripConfig.strip {} c)) refused
  have second : Filter.strippedContent {} (documentCodec none)
      (compact (ofClass (StripConfig.strip {} c))) = .error (.unreadableClass none details) := by
    rw [Filter.strippedContent, reread]
    rfl
  have both : Filter.strippedContent {} (documentCodec none) (compact v) >>=
      Filter.strippedContent {} (documentCodec none) = .error (.unreadableClass none details) := by
    simp only [bind, Except.bind, first, second]
  refine ⟨details, ?_⟩
  rw [applied, both]
  rfl

/-- A document with an annotation without values on the last level, and the name of a source file. -/
def deepDocument : Value :=
  .record [("source_file", .text "Main.java"), ("annotations", .array [nestedAnnotations 31])]

/-- What the document says. -/
def deepClass : ClassFile := { nestedClass 31 with sourceFile := some "Main.java" }

/-- A document with a number that is too large for a `float`, and the name of a source file. -/
def overflowDocument : Value :=
  .record [("source_file", .text "Main.java"),
    ("fields", .array [.record [("value", tag "float" (.number ⟨false, [1], [], some 39⟩))]])]

/-- What the document says. The `float` is infinite. -/
def overflowClass : ClassFile :=
  { sourceFile := some "Main.java", fields := [{ value := some (.float 0x7F800000) }] }

theorem isWritten_deepDocument : deepDocument.IsWritten := by
  have nested := isWritten_nestedDocument 31
  simp only [nestedDocument, Value.isWritten_record_iff, List.forall_mem_cons] at nested
  simp [deepDocument, nested]

theorem isWritten_overflowDocument : overflowDocument.IsWritten := by
  have number : (Value.number ⟨false, [1], [], some 39⟩).IsWritten :=
    ⟨⟨by decide, by decide, by decide⟩, by decide⟩
  simp [overflowDocument, number]

/-- **Not every class lasts.** Two filters that remove debug data get a class that can be read, and
what the first one writes for it is refused by the second one. -/
theorem FilterChain.refuses_what_it_wrote :
    let chain : FilterChain Id := [.strip {} (documentCodec none), .strip {} (documentCodec none)]
    let apply (c : ClassFile) (bytes : ByteArray) : Except Error ByteArray :=
      (chain.applyContent ({} : Workspace).symbols (.ofClass c bytes) bytes).run
    ((documentCodec none).read (compact deepDocument) = .ok deepClass ∧
      ∃ details, apply deepClass (compact deepDocument) =
        .error (.unreadableClass none details)) ∧
    ((documentCodec none).read (compact overflowDocument) = .ok overflowClass ∧
      ∃ details, apply overflowClass (compact overflowDocument) =
        .error (.unreadableClass none details)) := by
  intro chain apply
  have deep : classFile ⟨maxDepth, false⟩ deepDocument = some deepClass := by decide +kernel
  have overflow : classFile ⟨maxDepth, false⟩ overflowDocument = some overflowClass := by
    decide +kernel
  exact ⟨⟨read_compact isWritten_deepDocument deep, applyContent_strip_strip isWritten_deepDocument
      deep (by decide +kernel) (by decide +kernel) _ _⟩,
    ⟨read_compact isWritten_overflowDocument overflow, applyContent_strip_strip
      isWritten_overflowDocument overflow (by decide +kernel) (by decide +kernel) _ _⟩⟩

end Pseudonym
