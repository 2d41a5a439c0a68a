import Pseudonym.Proofs.CallSites
import Pseudonym.Proofs.Document.Rereading
import Pseudonym.Proofs.Strip

/-!
# Stripping and renaming commute

Debug data mentions names of its own, in signatures and local variables, and line numbers stand
among instructions that mention others. What is left of a class mentions nothing new
(`StripConfig.mentions_strip_subset`), no mention is answered by what stands around it, and the
answers find the places that they had:

    (s.strip c).renamed g = s.strip (c.renamed g).

So a class that can be renamed can be renamed without its debug data, with the same outcome. In a
chain the filters exchange bytes and not classes. There the order makes no difference as long as the
filters read from one another what they wrote (`ClassCodec.Share`). Not every class can be handed on
like this: documents lose digits of some numbers, each time that they are read.
-/

namespace Pseudonym

open Document Json

/-! ### Classes -/

namespace StripConfig

variable (s : StripConfig) (g : Mention → String)

theorem keepSignature_map (signature : Option String) (f : String → String) :
    s.keepSignature (signature.map f) = (s.keepSignature signature).map f := by
  unfold keepSignature
  by_cases selected : s.signatures = true
  · rw [if_pos selected, if_pos selected, Option.map_none]
  · rw [if_neg selected, if_neg selected]

theorem toList_keepSignature_subset (signature : Option String) :
    (s.keepSignature signature).toList ⊆ signature.toList := by
  unfold keepSignature
  by_cases selected : s.signatures = true
  · rw [if_pos selected]
    exact List.nil_subset _
  · rw [if_neg selected]
    exact List.Subset.refl _

theorem isLine_renamed (i : Instruction) : (i.renamed g).isLine = i.isLine := by
  cases i <;> rfl

theorem renamed_stripMethod (owner : String) (c : Method) :
    (s.stripMethod c).renamed g owner = s.stripMethod (c.renamed g owner) := by
  have instructions :
      (s.stripMethod c).instructions.map (Instruction.renamed g) =
        (s.stripMethod (c.renamed g owner)).instructions := by
    simp only [stripMethod, Method.renamed]
    by_cases selected : s.lineNumbers = true
    · simp only [if_pos selected, List.filter_map, Function.comp_def, isLine_renamed]
    · simp only [if_neg selected]
  have locals :
      (s.stripMethod c).localVariables.map (LocalVariable.renamed g owner c.name c.descriptor) =
        (s.stripMethod (c.renamed g owner)).localVariables := by
    simp only [stripMethod, Method.renamed]
    by_cases selected : s.localVariables = true
    · simp only [if_pos selected, List.map_nil]
    · simp only [if_neg selected, List.map_map]
      refine List.map_congr_left fun v _ => ?_
      simp only [Function.comp_apply, LocalVariable.renamed, stripVariable, keepSignature_map]
  have signature : (s.stripMethod c).signature.map (g <| .signature ·) =
      (s.stripMethod (c.renamed g owner)).signature :=
    (s.keepSignature_map c.signature _).symm
  rw [Method.renamed, instructions, signature]
  rw [show (s.stripMethod c).name = c.name from rfl,
    show (s.stripMethod c).descriptor = c.descriptor from rfl, locals]
  rfl

/-- **Answers find their places in what is left of a class.** -/
theorem renamed_strip (c : ClassFile) : (s.strip c).renamed g = s.strip (c.renamed g) := by
  have fields : (c.fields.map s.stripField).map (Field.renamed g c.name) =
      (c.fields.map (Field.renamed g c.name)).map s.stripField := by
    simp only [List.map_map]
    refine List.map_congr_left fun d _ => ?_
    simp only [Function.comp_apply, Field.renamed, stripField, keepSignature_map]
  have components :
      (c.recordComponents.map s.stripComponent).map (RecordComponent.renamed g c.name) =
        (c.recordComponents.map (RecordComponent.renamed g c.name)).map s.stripComponent := by
    simp only [List.map_map]
    refine List.map_congr_left fun d _ => ?_
    simp only [Function.comp_apply, RecordComponent.renamed, stripComponent, keepSignature_map]
  have methods : (c.methods.map s.stripMethod).map (Method.renamed g c.name) =
      (c.methods.map (Method.renamed g c.name)).map s.stripMethod := by
    simp only [List.map_map]
    exact List.map_congr_left fun d _ => s.renamed_stripMethod g c.name d
  simp only [ClassFile.renamed, strip, fields, components, methods, keepSignature_map]

/-! ### What is left mentions nothing new -/

theorem flatMap_map_subset {α : Type} {f : α → List Mention} {strip : α → α}
    (h : ∀ x, f (strip x) ⊆ f x) (xs : List α) : (xs.map strip).flatMap f ⊆ xs.flatMap f := by
  intro q hq
  rw [List.flatMap_map] at hq
  obtain ⟨x, hx, found⟩ := List.mem_flatMap.1 hq
  exact List.mem_flatMap.2 ⟨x, hx, h x found⟩

theorem flatten_subset_of_forall₂ {parts parts' : List (List Mention)}
    (h : List.Forall₂ (· ⊆ ·) parts parts') : parts.flatten ⊆ parts'.flatten := by
  induction h with
  | nil => exact List.Subset.refl _
  | cons part _ ih =>
    exact List.append_subset.2 ⟨List.Subset.trans part (List.subset_append_left _ _),
      List.Subset.trans ih (List.subset_append_right _ _)⟩

theorem signatures_subset (signature : Option String) :
    (s.keepSignature signature).toList.map Mention.signature ⊆
      signature.toList.map Mention.signature :=
  List.map_subset _ (s.toList_keepSignature_subset signature)

theorem mentions_stripVariable_subset (owner name d : String) (v : LocalVariable) :
    (s.stripVariable v).mentions owner name d ⊆ v.mentions owner name d := by
  refine flatten_subset_of_forall₂ ?_
  simpa [stripVariable] using s.signatures_subset v.signature

theorem mentions_stripField_subset (owner : String) (c : Field) :
    (s.stripField c).mentions owner ⊆ c.mentions owner := by
  refine flatten_subset_of_forall₂ ?_
  simpa [stripField] using s.signatures_subset c.signature

theorem mentions_stripComponent_subset (owner : String) (c : RecordComponent) :
    (s.stripComponent c).mentions owner ⊆ c.mentions owner := by
  refine flatten_subset_of_forall₂ ?_
  simpa [stripComponent] using s.signatures_subset c.signature

theorem mentions_stripMethod_subset (owner : String) (c : Method) :
    (s.stripMethod c).mentions owner ⊆ c.mentions owner := by
  have locals :
      (s.stripMethod c).localVariables.flatMap (LocalVariable.mentions owner c.name c.descriptor) ⊆
        c.localVariables.flatMap (LocalVariable.mentions owner c.name c.descriptor) := by
    unfold stripMethod
    by_cases selected : s.localVariables = true
    · simp only [if_pos selected]
      exact List.nil_subset _
    · simp only [if_neg selected]
      exact flatMap_map_subset (s.mentions_stripVariable_subset owner c.name c.descriptor) _
  have instructions : (s.stripMethod c).instructions.flatMap Instruction.mentions ⊆
      c.instructions.flatMap Instruction.mentions := by
    unfold stripMethod
    by_cases selected : s.lineNumbers = true
    · simp only [if_pos selected]
      intro q hq
      obtain ⟨i, hi, found⟩ := List.mem_flatMap.1 hq
      exact List.mem_flatMap.2 ⟨i, (List.mem_filter.1 hi).1, found⟩
    · simp only [if_neg selected]
      exact List.Subset.refl _
  refine flatten_subset_of_forall₂ ?_
  simp only [List.forall₂_cons, List.forall₂_nil_left_iff, and_true]
  exact ⟨locals, List.Subset.refl _, List.Subset.refl _, s.signatures_subset c.signature,
    List.Subset.refl _, List.Subset.refl _, List.Subset.refl _, instructions, List.Subset.refl _⟩

/-- **What is left of a class mentions nothing new.** -/
theorem mentions_strip_subset (c : ClassFile) : (s.strip c).mentions ⊆ c.mentions := by
  refine flatten_subset_of_forall₂ ?_
  simp only [List.forall₂_cons, List.forall₂_nil_left_iff, and_true]
  exact ⟨List.Subset.refl _, List.Subset.refl _, s.signatures_subset c.signature,
    List.Subset.refl _, List.Subset.refl _, List.Subset.refl _, List.Subset.refl _,
    List.Subset.refl _, List.Subset.refl _, List.Subset.refl _,
    flatMap_map_subset (s.mentions_stripComponent_subset c.name) _,
    flatMap_map_subset (s.mentions_stripField_subset c.name) _,
    flatMap_map_subset (s.mentions_stripMethod_subset c.name) _⟩

end StripConfig

/-- A class that can be renamed can be renamed without its debug data, with the same outcome. -/
theorem Renamer.remap_strip {r : Renamer} {c : ClassFile} {o : Remapped} (h : r.remap c = .ok o)
    (s : StripConfig) : ∃ o', r.remap (s.strip c) = .ok o' ∧ o'.result = s.strip o.result := by
  obtain ⟨answered, written⟩ := of_remap h
  obtain ⟨o', h'⟩ : ∃ o', r.remap (s.strip c) = .ok o' :=
    remap_of_answered fun q hq => ⟨_, answered q (s.mentions_strip_subset c hq)⟩
  refine ⟨o', h', ?_⟩
  rw [(of_remap h').2, written, s.renamed_strip]

/-! ### Bytes -/

section

variable {codec : ClassCodec} {bytes : ByteArray} {c : ClassFile}

/-- Bytes stay as they are where there is nothing to remove. -/
theorem strippedContent_of_read (s : StripConfig) (read : codec.read bytes = .ok c) :
    Filter.strippedContent s codec bytes =
      if s.strip c = c then .ok bytes else codec.write (s.strip c) := by
  have content : Filter.strippedContent s codec bytes =
      if s.touches c then codec.write (s.strip c) else .ok bytes := by
    rw [Filter.strippedContent, read]
    rfl
  rw [content]
  by_cases same : s.strip c = c
  · rw [if_pos same, s.touches_eq_false_iff.2 same, if_neg Bool.false_ne_true]
  · have touched : s.touches c = true :=
      Bool.eq_true_of_not_eq_false fun untouched => same (s.touches_eq_false_iff.1 untouched)
    rw [if_neg same, if_pos touched]

/-- What was written for a class and is read as it is left behind by filters only as what would be
written for their outcome. -/
theorem strippedContent_of_write (s : StripConfig) (written : codec.write c = .ok bytes)
    (read : codec.read bytes = .ok c) :
    Filter.strippedContent s codec bytes = codec.write (s.strip c) := by
  rw [strippedContent_of_read s read]
  split
  · next same => rw [same, written]
  · rfl

theorem remapBytes_of_write {r : Renamer} {o : Remapped} (written : codec.write c = .ok bytes)
    (read : codec.read bytes = .ok c) (h : r.remap c = .ok o) :
    r.remapBytes codec bytes = codec.write o.result := by
  rw [Renamer.remapBytes_of_remap read h]
  split
  · rfl
  · next kept => rw [Renamer.result_of_not_modified h (Bool.eq_false_of_not_eq_true kept), written]

theorem ok_bind {α β : Type} (a : α) (k : α → Except Error β) : Except.ok a >>= k = k a := rfl

/-- **The two orders agree on bytes.** -/
theorem remapBytes_strippedContent {r : Renamer} {o : Remapped} (s : StripConfig)
    (read : codec.read bytes = .ok c) (h : r.remap c = .ok o)
    (stripped : ∃ b, codec.write (s.strip c) = .ok b ∧ codec.read b = .ok (s.strip c))
    (renamed : ∃ b, codec.write o.result = .ok b ∧ codec.read b = .ok o.result) :
    r.remapBytes codec bytes >>= Filter.strippedContent s codec =
      Filter.strippedContent s codec bytes >>= r.remapBytes codec := by
  obtain ⟨o', h', result⟩ := Renamer.remap_strip h s
  obtain ⟨b, written, reread⟩ := stripped
  obtain ⟨b', written', reread'⟩ := renamed
  have onStripped : r.remapBytes codec b = codec.write (s.strip o.result) := by
    rw [remapBytes_of_write written reread h', result]
  have onRenamed : Filter.strippedContent s codec b' = codec.write (s.strip o.result) :=
    strippedContent_of_write s written' reread'
  have kept (unmodified : ¬ o.isModified = true) : o.result = c :=
    Renamer.result_of_not_modified h (Bool.eq_false_of_not_eq_true unmodified)
  by_cases same : s.strip c = c
  · -- Whether there is anything to remove does not depend on the names.
    obtain rfl : o' = o := by
      rw [same, h] at h'
      exact (Except.ok.inj h').symm
    have untouched : Filter.strippedContent s codec bytes = .ok bytes := by
      rw [strippedContent_of_read s read, if_pos same]
    rw [untouched, ok_bind, Renamer.remapBytes_of_remap read h]
    by_cases modified : o'.isModified = true
    · rw [if_pos modified, written', ok_bind, onRenamed, ← result, written']
    · rw [if_neg modified, ok_bind, untouched]
  · have touched : Filter.strippedContent s codec bytes = .ok b := by
      rw [strippedContent_of_read s read, if_neg same, written]
    rw [touched, ok_bind, onStripped, Renamer.remapBytes_of_remap read h]
    by_cases modified : o.isModified = true
    · rw [if_pos modified, written', ok_bind, onRenamed]
    · rw [if_neg modified, ok_bind, touched, kept modified, written]

end

/-! ### Codecs that hand classes on -/

namespace ClassCodec

/-- Whether all codecs read some bytes as a class. -/
def AllRead (codecs : List ClassCodec) (bytes : ByteArray) (c : ClassFile) : Prop :=
  ∀ k ∈ codecs, k.read bytes = .ok c

/-- Whether codecs can hand a class on: each of them can write it, and what it writes is read as the
class by all of them. -/
def Share (codecs : List ClassCodec) (c : ClassFile) : Prop :=
  ∀ k ∈ codecs, ∃ bytes, k.write c = .ok bytes ∧ AllRead codecs bytes c

variable {codecs : List ClassCodec} {k : ClassCodec} {bytes : ByteArray} {c : ClassFile}

theorem exists_strippedContent {s : StripConfig} (hk : k ∈ codecs) (read : AllRead codecs bytes c)
    (share : Share codecs (s.strip c)) :
    ∃ out, Filter.strippedContent s k bytes = .ok out ∧ AllRead codecs out (s.strip c) := by
  rw [strippedContent_of_read s (read k hk)]
  by_cases same : s.strip c = c
  · rw [if_pos same, same]
    exact ⟨bytes, rfl, read⟩
  · rw [if_neg same]
    exact share k hk

theorem exists_remapBytes {r : Renamer} {o : Remapped} (hk : k ∈ codecs)
    (read : AllRead codecs bytes c) (h : r.remap c = .ok o) (share : Share codecs o.result) :
    ∃ out, r.remapBytes k bytes = .ok out ∧ AllRead codecs out o.result := by
  rw [Renamer.remapBytes_of_remap (read k hk) h]
  by_cases modified : o.isModified = true
  · rw [if_pos modified]
    exact share k hk
  · rw [if_neg modified, Renamer.result_of_not_modified h (Bool.eq_false_of_not_eq_true modified)]
    exact ⟨bytes, rfl, read⟩

end ClassCodec

/-- Documents hand a class on, in whatever layouts, if reading gives back what was written. -/
theorem share_documents {layout layout' : Layout} {c : ClassFile}
    (reread : classFile ⟨maxDepth, false⟩ (ofClass c) = some c) :
    ClassCodec.Share [documentCodec layout, documentCodec layout'] c := by
  have read (l l' : Layout) :
      (documentCodec l').read ((ofClass c).render l).toUTF8 = .ok c :=
    (documentCodec_read_render (isWritten_ofClass c)).2 reread
  intro k hk
  simp only [List.mem_cons, List.not_mem_nil, or_false] at hk
  rcases hk with rfl | rfl
  · exact ⟨_, rfl, by simpa [ClassCodec.AllRead] using ⟨read _ _, read _ _⟩⟩
  · exact ⟨_, rfl, by simpa [ClassCodec.AllRead] using ⟨read _ _, read _ _⟩⟩

/-! ### Filters -/

section

variable {m : Type → Type} [Monad m]

/-- The filters that rename a class by a renamer. -/
inductive Filter.RenamesBy (codec : ClassCodec) (symbols : SymbolSource) (info : ClassInfo) :
    Renamer → Filter m → Prop where
  | transparent (markers : Markers) (reserved : List String)
    (primary : symbols.isPrimary info.name = true) :
    RenamesBy codec symbols info ⟨.generated symbols markers reserved, some symbols⟩
      (.transparent markers reserved codec)
  | table {t : MappingTable} {f : Filter m} (made : Filter.table t codec = .ok f) :
    RenamesBy codec symbols info ⟨t.mapping, some symbols⟩ f

theorem Filter.RenamesBy.filterContent_eq {codec : ClassCodec} {symbols : SymbolSource}
    {info : ClassInfo} {r : Renamer} {f : Filter m} (hf : f.RenamesBy codec symbols info r)
    (bytes : ByteArray) :
    f.filterContent symbols info bytes = settle (r.remapBytes codec bytes) := by
  cases hf with
  | transparent markers reserved primary =>
    show settle (tokenContent markers reserved codec symbols info bytes) = _
    rw [tokenContent, if_pos primary]
  | table made =>
    obtain ⟨inverse, -, done⟩ := bind_eq_ok_iff.1 made
    obtain rfl := pure_eq_ok_iff.1 done
    rfl

variable [LawfulMonad m]

theorem FilterChain.applyContent_append (front back : FilterChain m) (symbols : SymbolSource)
    (info : ClassInfo) (bytes : ByteArray) :
    applyContent (front ++ back) symbols info bytes =
      front.applyContent symbols info bytes >>= back.applyContent symbols info :=
  List.foldlM_append

theorem FilterChain.applyContent_pair {f g : Filter m} {symbols : SymbolSource} {info : ClassInfo}
    {bytes between out : ByteArray}
    (first : f.filterContent symbols info bytes = Filter.settle (.ok between))
    (second : g.filterContent symbols info between = Filter.settle (.ok out)) :
    applyContent [f, g] symbols info bytes = pure out := by
  rw [applyContent, List.foldlM_cons, first, settle_ok_bind, List.foldlM_cons, second,
    settle_ok_bind]
  rfl

/-- What a part of a chain makes of bytes is what the chain goes on with. -/
theorem FilterChain.applyContent_within {front part back : FilterChain m} {symbols : SymbolSource}
    {info : ClassInfo} {start bytes out : ByteArray}
    (begun : front.applyContent symbols info start = pure bytes)
    (done : part.applyContent symbols info bytes = pure out) :
    applyContent (front ++ part ++ back) symbols info start =
      back.applyContent symbols info out := by
  rw [applyContent_append, applyContent_append, begun, pure_bind, done, pure_bind]

/-- Both orders of a renaming and a stripping filter succeed and leave the same class. -/
theorem FilterChain.exists_exchanged {r : Renamer} {c : ClassFile} {o : Remapped} (s : StripConfig)
    (h : r.remap c = .ok o) {symbols : SymbolSource} {info : ClassInfo} {codec codec' : ClassCodec}
    {f : Filter m} (hf : f.RenamesBy codec symbols info r)
    (share : ∀ x ∈ [s.strip c, o.result, s.strip o.result], ClassCodec.Share [codec, codec'] x)
    {bytes : ByteArray} (read : ClassCodec.AllRead [codec, codec'] bytes c) :
    ∃ out out', applyContent [f, .strip s codec'] symbols info bytes = pure out ∧
      applyContent [.strip s codec', f] symbols info bytes = pure out' ∧
      ClassCodec.AllRead [codec, codec'] out (s.strip o.result) ∧
      ClassCodec.AllRead [codec, codec'] out' (s.strip o.result) ∧
      (codec = codec' → out = out') := by
  simp only [List.forall_mem_cons, List.not_mem_nil, false_imp_iff, implies_true, and_true] at share
  obtain ⟨stripped, renamed, both⟩ := share
  obtain ⟨o', h', result⟩ := Renamer.remap_strip h s
  have first : codec ∈ [codec, codec'] := List.mem_cons_self
  have second : codec' ∈ [codec, codec'] := List.mem_cons_of_mem codec List.mem_cons_self
  obtain ⟨b, hb, readb⟩ := ClassCodec.exists_remapBytes first read h renamed
  obtain ⟨out, hout, readOut⟩ := ClassCodec.exists_strippedContent second readb both
  obtain ⟨b', hb', readb'⟩ := ClassCodec.exists_strippedContent second read stripped
  obtain ⟨out', hout', readOut'⟩ := ClassCodec.exists_remapBytes first readb' h' (result ▸ both)
  have renames {x y : ByteArray} (done : r.remapBytes codec x = .ok y) :
      f.filterContent symbols info x = Filter.settle (.ok y) :=
    (hf.filterContent_eq x).trans (congrArg Filter.settle done)
  have strips {x y : ByteArray} (done : Filter.strippedContent s codec' x = .ok y) :
      (Filter.strip s codec' : Filter m).filterContent symbols info x = Filter.settle (.ok y) :=
    congrArg Filter.settle done
  refine ⟨out, out', applyContent_pair (renames hb) (strips hout),
    applyContent_pair (strips hb') (renames hout'), readOut, result ▸ readOut', ?_⟩
  rintro rfl
  have reread {x : ClassFile} (share : ClassCodec.Share [codec, codec] x) :
      ∃ y, codec.write x = .ok y ∧ codec.read y = .ok x := by
    obtain ⟨y, written, all⟩ := share codec first
    exact ⟨y, written, all codec first⟩
  have orders :=
    remapBytes_strippedContent s (read codec first) h (reread stripped) (reread renamed)
  rw [hb, hb', ok_bind, ok_bind, hout, hout'] at orders
  exact Except.ok.inj orders

/-- A filter that gives tokens leaves classes alone that are not primary. -/
theorem FilterChain.applyContent_exchanged {symbols : SymbolSource} {info : ClassInfo}
    (other : symbols.isPrimary info.name = false) (markers : Markers) (reserved : List String)
    (codec : ClassCodec) (g : Filter m) :
    applyContent [.transparent markers reserved codec, g] symbols info =
      applyContent [g, .transparent markers reserved codec] symbols info := by
  have untouched (bytes : ByteArray) :
      (Filter.transparent markers reserved codec : Filter m).filterContent symbols info bytes =
        pure bytes := by
    show Filter.settle (Filter.tokenContent markers reserved codec symbols info bytes) = _
    rw [Filter.tokenContent, other]
    rfl
  funext bytes
  simp only [applyContent, List.foldlM_cons, List.foldlM_nil, untouched, pure_bind, bind_pure]

/-- **Stripping and renaming commute.** A class that can be renamed can be renamed without its debug
data, and what comes out is the renamed class without its debug data. In a chain the two filters can
change places: if the codecs hand on the classes that come up, both orders succeed and leave this
same class, and under one codec the same bytes. A filter that gives tokens leaves classes alone that
are not primary, and for them it can change places with any filter whatever the codecs do. -/
theorem Renamer.stripping_commutes {r : Renamer} {c : ClassFile} {o : Remapped} (s : StripConfig)
    (h : r.remap c = .ok o) :
    (∃ o', r.remap (s.strip c) = .ok o' ∧ o'.result = s.strip o.result) ∧
    (∀ (symbols : SymbolSource) (info : ClassInfo) (codec codec' : ClassCodec) (f : Filter m),
      f.RenamesBy codec symbols info r →
      (∀ x ∈ [s.strip c, o.result, s.strip o.result], ClassCodec.Share [codec, codec'] x) →
      ∀ (front back : FilterChain m) (start bytes : ByteArray),
        front.applyContent symbols info start = pure bytes →
        ClassCodec.AllRead [codec, codec'] bytes c →
        ∃ out out',
          FilterChain.applyContent (front ++ [f, .strip s codec'] ++ back) symbols info start =
            back.applyContent symbols info out ∧
          FilterChain.applyContent (front ++ [.strip s codec', f] ++ back) symbols info start =
            back.applyContent symbols info out' ∧
          ClassCodec.AllRead [codec, codec'] out (s.strip o.result) ∧
          ClassCodec.AllRead [codec, codec'] out' (s.strip o.result) ∧
          (codec = codec' → out = out')) ∧
    ∀ (symbols : SymbolSource) (info : ClassInfo) (codec codec' : ClassCodec) (markers : Markers)
      (reserved : List String), symbols.isPrimary info.name = false →
      ∀ (front back : FilterChain m) (start : ByteArray),
        let f : Filter m := .transparent markers reserved codec
        FilterChain.applyContent (front ++ [f, .strip s codec'] ++ back) symbols info start =
          FilterChain.applyContent (front ++ [.strip s codec', f] ++ back) symbols info
            start := by
  refine ⟨remap_strip h s, ?_, ?_⟩
  · intro symbols info codec codec' f hf share front back start bytes begun read
    obtain ⟨out, out', renamedFirst, strippedFirst, same⟩ :=
      FilterChain.exists_exchanged s h hf share read
    exact ⟨out, out', FilterChain.applyContent_within begun renamedFirst,
      FilterChain.applyContent_within begun strippedFirst, same⟩
  · intro symbols info codec codec' markers reserved other front back start f
    rw [FilterChain.applyContent_append, FilterChain.applyContent_append front,
      FilterChain.applyContent_exchanged other, ← FilterChain.applyContent_append,
      ← FilterChain.applyContent_append]

end

/-- A class with debug data of every kind, in documents of two layouts. -/
theorem Renamer.stripping_commutes_documents :
    let s : StripConfig := { lineNumbers := true, signatures := true }
    let t : MappingTable := .ofEntries [.class "a/A" "b/B"]
    let r : Renamer := ⟨t.mapping, some (Workspace.symbols {})⟩
    let call (name : String) : Instruction := .method 182 name "run" "()V" false
    let bare (name : String) : ClassFile :=
      { name := name
        methods := [{ name := "run", descriptor := "()V", instructions := [call name] }] }
    let full (name descriptor : String) : ClassFile :=
      { bare name with
        signature := some descriptor
        sourceFile := some "A.java"
        methods := [{
          name := "run"
          descriptor := "()V"
          instructions := [.line 12 0, call name]
          localVariables := [⟨"this", descriptor, some descriptor, 0, 1, 0⟩] }] }
    let c := full "a/A" "La/A;"
    let codec := documentCodec none
    let codec' := documentCodec (some 0)
    let bytes := compact (ofClass c)
    let info := ClassInfo.ofClass c bytes
    ∃ o f, r.remap c = .ok o ∧ o.result = full "b/B" "Lb/B;" ∧ Filter.table t codec = .ok f ∧
      (∀ x ∈ [s.strip c, o.result, s.strip o.result], ClassCodec.Share [codec, codec'] x) ∧
      ClassCodec.AllRead [codec, codec'] bytes c ∧
      ∃ out out', FilterChain.applyContent [f, .strip s codec'] (Workspace.symbols {}) info bytes =
          (pure out : ExceptT Error Id ByteArray) ∧
        FilterChain.applyContent [.strip s codec', f] (Workspace.symbols {}) info bytes = pure out' ∧
        ClassCodec.AllRead [codec, codec'] out (bare "b/B") ∧
        ClassCodec.AllRead [codec, codec'] out' (bare "b/B") := by
  intro s t r call bare full c codec codec' bytes info
  have renamed : (r.remap c).toOption.map (·.result) = some (full "b/B" "Lb/B;") := by
    decide +kernel
  obtain ⟨o, h, result⟩ := Option.map_eq_some_iff.1 renamed
  have h := toOption_eq_some_iff.1 h
  obtain ⟨f, made⟩ := Filter.exists_table (t := t) (by decide +kernel) codec
  have left : s.strip o.result = bare "b/B" := by
    rw [result]
    decide +kernel
  have share : ∀ x ∈ [s.strip c, o.result, s.strip o.result],
      ClassCodec.Share [codec, codec'] x := by
    have reread : ∀ x ∈ [s.strip c, full "b/B" "Lb/B;", bare "b/B"],
        classFile ⟨maxDepth, false⟩ (ofClass x) = some x := by decide +kernel
    rw [left, result]
    exact fun x hx => share_documents (reread x hx)
  have read : ClassCodec.AllRead [codec, codec'] bytes c := by
    have shared : ClassCodec.Share [codec, codec'] c := share_documents (by decide +kernel)
    obtain ⟨x, written, all⟩ := shared codec List.mem_cons_self
    obtain rfl : compact (ofClass c) = x := Except.ok.inj written
    exact all
  obtain ⟨-, exchanged, -⟩ := stripping_commutes (m := Id) s h
  obtain ⟨out, out', first, second, readOut, readOut', -⟩ :=
    exchanged (Workspace.symbols {}) info codec codec' f (.table made) share [] [] bytes bytes rfl
      read
  rw [left] at readOut readOut'
  exact ⟨o, f, h, result, made, share, read, out, out', first, second, readOut, readOut'⟩

/-- A class with one number, given by its bits, and a signature. -/
def driftClass (bits : UInt64) (signature : Option String) : ClassFile :=
  { name := "a/A"
    signature := signature
    fields := [{ name := "x", descriptor := "D", value := some (.double bits) }] }

/-- A document for such a class. -/
def driftDocument : Value :=
  .record [("name", .text "a/A"), ("signature", .text "Lb/B;"),
    ("fields", .array [.record [("name", .text "x"), ("descriptor", .text "D"),
      ("value", tag "double"
        (.number ⟨false, [1], [7, 8, 4, 5, 4, 6, 3, 1, 5, 1, 1, 1, 8, 2, 3, 4], some (-7)⟩))]])]

theorem isWritten_driftDocument : driftDocument.IsWritten := by
  have number : (Value.number
      ⟨false, [1], [7, 8, 4, 5, 4, 6, 3, 1, 5, 1, 1, 1, 8, 2, 3, 4], some (-7)⟩).IsWritten :=
    ⟨⟨by decide, by decide, by decide⟩, by decide⟩
  simp [driftDocument, number]

/-- What the document says. -/
theorem read_driftDocument : (documentCodec none).read (compact driftDocument) =
    .ok (driftClass 0x3E87F3A789FCF766 (some "Lb/B;")) :=
  read_compact isWritten_driftDocument (by decide +kernel)

/-- The number is read as the next one after it was written, and so is the next one. -/
theorem drift_rereads :
    (∀ signature ∈ [none, some "Lb/C;"],
      classFile ⟨maxDepth, false⟩ (ofClass (driftClass 0x3E87F3A789FCF766 signature)) =
        some (driftClass 0x3E87F3A789FCF767 signature)) ∧
    classFile ⟨maxDepth, false⟩ (ofClass (driftClass 0x3E87F3A789FCF767 none)) =
      some (driftClass 0x3E87F3A789FCF768 none) := by
  decide +kernel

/-- **Documents show the order.** If the signature is all that a table renames, the class is written
twice where it is renamed first, and once where the signature is removed first: then nothing is left
to rename. -/
theorem FilterChain.order_shows_in_documents :
    let stripping : Filter Id := .strip { signatures := true } (documentCodec none)
    let t : MappingTable := .ofEntries [.class "b/B" "b/C"]
    let symbols := Workspace.symbols {}
    let c := driftClass 0x3E87F3A789FCF766 (some "Lb/B;")
    let info := ClassInfo.ofClass c (compact driftDocument)
    (documentCodec none).read (compact driftDocument) = .ok c ∧
    (∃ o, (Renamer.mk t.mapping (some symbols)).remap c = .ok o) ∧
    ∃ f, Filter.table t (documentCodec none) = .ok f ∧
      ∃ out out' d d', applyContent [f, stripping] symbols info (compact driftDocument) = pure out ∧
        applyContent [stripping, f] symbols info (compact driftDocument) = pure out' ∧
        (documentCodec none).read out = .ok d ∧ (documentCodec none).read out' = .ok d' ∧
        d ≠ d' := by
  intro stripping t symbols c info
  obtain ⟨drift, twice⟩ := drift_rereads
  have rereads {x y : ClassFile} (h : classFile ⟨maxDepth, false⟩ (ofClass x) = some y) :
      (documentCodec none).read (compact (ofClass x)) = .ok y :=
    read_compact (isWritten_ofClass x) h
  let r : Renamer := ⟨t.mapping, some symbols⟩
  have renamed : (r.remap c).toOption.map (fun o => (o.result, o.isModified)) =
      some (driftClass 0x3E87F3A789FCF766 (some "Lb/C;"), true) := by decide +kernel
  have nothing : (r.remap (driftClass 0x3E87F3A789FCF767 none)).toOption.map (·.isModified) =
      some false := by decide +kernel
  obtain ⟨o, h, modified⟩ := Option.map_eq_some_iff.1 renamed
  obtain ⟨result, modified⟩ := Prod.mk.inj modified
  obtain ⟨o', h', kept⟩ := Option.map_eq_some_iff.1 nothing
  have h := toOption_eq_some_iff.1 h
  have h' := toOption_eq_some_iff.1 h'
  obtain ⟨f, made⟩ := Filter.exists_table (t := t) (by decide +kernel) (documentCodec none)
  have renames (x : ByteArray) :
      f.filterContent symbols info x = Filter.settle (r.remapBytes (documentCodec none) x) :=
    (Filter.RenamesBy.table made).filterContent_eq x
  have strips (x : ByteArray) : stripping.filterContent symbols info x =
      Filter.settle (Filter.strippedContent _ (documentCodec none) x) := rfl
  have first : f.filterContent symbols info (compact driftDocument) =
      Filter.settle (.ok (compact (ofClass (driftClass 0x3E87F3A789FCF766 (some "Lb/C;"))))) := by
    rw [renames, Renamer.remapBytes_of_remap read_driftDocument h, modified, result]
    rfl
  have second : stripping.filterContent symbols info
      (compact (ofClass (driftClass 0x3E87F3A789FCF766 (some "Lb/C;")))) =
        Filter.settle (.ok (compact (ofClass (driftClass 0x3E87F3A789FCF767 none)))) := by
    rw [strips, strippedContent_of_read _ (rereads (drift (some "Lb/C;") (by simp))),
      if_neg (by decide)]
    rfl
  have first' : stripping.filterContent symbols info (compact driftDocument) =
      Filter.settle (.ok (compact (ofClass (driftClass 0x3E87F3A789FCF766 none)))) := by
    rw [strips, strippedContent_of_read _ read_driftDocument, if_neg (by decide)]
    rfl
  have second' : f.filterContent symbols info
      (compact (ofClass (driftClass 0x3E87F3A789FCF766 none))) =
        Filter.settle (.ok (compact (ofClass (driftClass 0x3E87F3A789FCF766 none)))) := by
    rw [renames, Renamer.remapBytes_of_remap (rereads (drift none (by simp))) h', kept]
    rfl
  exact ⟨read_driftDocument, ⟨o, h⟩, f, made, _, _, _, _, applyContent_pair first second,
    applyContent_pair first' second', rereads twice, rereads (drift none (by simp)), by decide⟩

end Pseudonym
