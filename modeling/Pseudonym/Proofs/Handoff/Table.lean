import Pseudonym.Document
import Pseudonym.Proofs.Handoff
import Pseudonym.Proofs.Mapping.Inverse
import Pseudonym.Proofs.Workspace

/-!
# Handing out classes under a table

A table is applied to names as it stands and undone by its inverse (`MappingTable.invertClasses`),
which exists if no two entries of the table share a new name. An inverse knows nothing of the classes
that the table leaves out. Such a class keeps its name, and if the table gives the same name to
another class, both have one name outside and the inverse leads to the other class. What can be told
apart are the names that the table spares:

    unfilterName (filterName name) = name  ↔  t.Spares name,

and the classes whose names are spared are handed out as they should be.
-/

namespace Pseudonym

open Std

namespace MappingTable

/-! ### Names that are spared -/

/-- Whether a name leads back to itself: the table has an entry for it, or gives it to no class. -/
def Spares (t : MappingTable) (name : String) : Prop :=
  name ∈ t.classes ∨ ∀ old : String, t.classes[old]? ≠ some name

/-- The name of a class outside. -/
def outside (t : MappingTable) (name : String) : String := t.classes[name]?.getD name

variable {t : MappingTable} {inverse : ExtTreeMap String String} {name name' : String}

theorem inside_outside_iff (h : t.invertClasses = .ok inverse) :
    inverse[t.outside name]?.getD (t.outside name) = name ↔ t.Spares name := by
  have given : ∀ old, t.classes[old]? = some name ↔ inverse[name]? = some old :=
    fun old => (getElem?_of_invertClasses h name old).symm
  have listed : name ∈ t.classes ↔ ∃ new, t.classes[name]? = some new := by
    rw [ExtTreeMap.mem_iff_isSome_getElem?, Option.isSome_iff_exists]
  unfold outside Spares
  cases entry : t.classes[name]? with
  | some new =>
    have back := (getElem?_of_invertClasses h new name).2 entry
    simp [back, listed, entry]
  | none =>
    cases back : inverse[name]? with
    | none => simp [listed, entry, given, back]
    | some old =>
      have moved : old ≠ name := by
        rintro rfl
        rw [← given, entry] at back
        cases back
      simp [listed, entry, given, back, moved]

/-- Names that are spared stay apart. -/
theorem outside_inj (h : t.invertClasses = .ok inverse) (hn : t.Spares name)
    (hn' : t.Spares name') (same : t.outside name = t.outside name') : name = name' := by
  rw [← (inside_outside_iff h).2 hn, same, (inside_outside_iff h).2 hn']

end MappingTable

/-! ### Through the filter -/

theorem withoutSuffix_of_not_suffix {name : String} (h : ¬".class".toList <:+ name.toList) :
    withoutSuffix name = name := by
  unfold withoutSuffix
  split
  · next stem found =>
    exact absurd ⟨stem, List.append_eq_of_isSuffixOf?_eq_some found⟩ h
  · rfl

namespace Filter

variable {t : MappingTable} {codec : ClassCodec} {symbols : SymbolSource} {f : Filter Id}

theorem table_eq_ok_iff :
    table t codec = .ok f ↔ ∃ inverse, t.invertClasses = .ok inverse ∧ ofInverse t inverse codec = f :=
  map_eq_ok_iff

theorem exists_table (h : t.invertClasses.toOption.isSome = true) (codec : ClassCodec) :
    ∃ f : Filter Id, table t codec = .ok f := by
  obtain ⟨inverse, inverted⟩ := Option.isSome_iff_exists.1 h
  exact ⟨_, table_eq_ok_iff.2 ⟨inverse, toOption_eq_some_iff.1 inverted, rfl⟩⟩

theorem filterName_table (h : table t codec = .ok f) (name : String) :
    f.filterName symbols name = pure (t.outside name) := by
  obtain ⟨_, _, rfl⟩ := table_eq_ok_iff.1 h
  rfl

/-- A name leads through the filter and back to itself exactly if the table spares it. -/
theorem unfilterName_table_iff (h : table t codec = .ok f) (name : String) :
    f.unfilterName symbols (t.outside name) = pure name ↔ t.Spares name := by
  obtain ⟨inverse, inverted, rfl⟩ := table_eq_ok_iff.1 h
  exact MappingTable.inside_outside_iff inverted

theorem applyContent_table (h : table t codec = .ok f) (info : ClassInfo) (bytes : ByteArray) :
    FilterChain.applyContent [f] symbols info bytes =
      settle ((Renamer.mk t.mapping (some symbols)).remapBytes codec bytes) := by
  obtain ⟨_, _, rfl⟩ := table_eq_ok_iff.1 h
  exact bind_pure _

end Filter

namespace Handoff

variable {t : MappingTable} {codec : ClassCodec} {symbols : SymbolSource} {f : Filter Id}

theorem sink_table (h : Filter.table t codec = .ok f) (info : ClassInfo) :
    (Handoff.mk symbols [f]).sink info = pure ⟨t.outside info.name, none⟩ := by
  rw [sink, FilterChain.applyName, List.foldlM_cons, Filter.filterName_table h]
  rfl

/-- A class whose name is spared is found by its name outside. -/
theorem classBytes_table (h : Filter.table t codec = .ok f) {info : ClassInfo}
    (found : symbols.find? info.name = some info) (spared : t.Spares info.name)
    {requested : String} (hr : withoutSuffix requested = t.outside info.name) :
    (Handoff.mk symbols [f]).classBytes requested =
      some <$> FilterChain.applyContent [f] symbols info info.bytes := by
  have back : FilterChain.unapplyName [f] symbols (t.outside info.name) = pure info.name :=
    (Filter.unfilterName_table_iff h info.name).2 spared
  have inside : (ExceptT.lift (pure info.name : Id String) : ExceptT Error Id String) =
      pure info.name := rfl
  rw [classBytes, hr, back, inside, pure_bind]
  dsimp only
  rw [found]

end Handoff

/-! ### The hand-off -/

/-- **Classes whose names the table spares are handed out under a table as what they are.**  Their
names lead through the filter and back, no two of them share a name outside, and a class is served
by the name that its sink expects, unless a suffix `.class` is part of that name, and by this name as
a file. -/
theorem table_handoff_agrees (w : Workspace) (t : MappingTable) (codec : ClassCodec)
    {f : Filter Id} (hf : Filter.table t codec = .ok f) :
    let h : Handoff Id := ⟨w.symbols, [f]⟩
    (∀ name, ∃ outside, f.filterName w.symbols name = pure outside ∧
      (t.Spares name → f.unfilterName w.symbols outside = pure name)) ∧
    (∀ info info', w.find? info.name = some info → w.find? info'.name = some info' →
      t.Spares info.name → t.Spares info'.name →
      f.filterName w.symbols info.name = f.filterName w.symbols info'.name → info = info') ∧
    (∀ info, w.find? info.name = some info → t.Spares info.name →
      ∃ s, h.sink info = pure s ∧
        (¬".class".toList <:+ s.expected.toList →
          h.classBytes s.expected = some <$> h.chain.applyContent w.symbols info info.bytes) ∧
        h.classBytes (s.expected ++ ".class") =
          some <$> h.chain.applyContent w.symbols info info.bytes) := by
  intro h
  refine ⟨?_, ?_, ?_⟩
  · intro name
    exact ⟨_, Filter.filterName_table hf name, (Filter.unfilterName_table_iff hf name).2⟩
  · intro info info' found found' spared spared' same
    rw [Filter.filterName_table hf, Filter.filterName_table hf] at same
    obtain ⟨inverse, inverted, -⟩ := Filter.table_eq_ok_iff.1 hf
    have named : info.name = info'.name :=
      MappingTable.outside_inj inverted spared spared' (Except.ok.inj same)
    rw [named, found'] at found
    exact (Option.some.inj found).symm
  · intro info found spared
    refine ⟨_, Handoff.sink_table hf info, ?_, ?_⟩
    · intro plain
      exact Handoff.classBytes_table hf found spared (withoutSuffix_of_not_suffix plain)
    · exact Handoff.classBytes_table hf found spared (withoutSuffix_append _)

/-- Two classes that exchange their names. -/
theorem table_handoff_agrees_exchanged :
    let t : MappingTable := .ofEntries [.class "a/A" "b/B", .class "b/B" "a/A"]
    let a : ClassInfo := .ofClass { name := "a/A" } .empty
    let b : ClassInfo := .ofClass { name := "b/B" } .empty
    let w : Workspace := [a, b].foldl .addPrimary {}
    ∃ f : Filter Id, Filter.table t (documentCodec none) = .ok f ∧
      let h : Handoff Id := ⟨w.symbols, [f]⟩
      f.filterName w.symbols a.name ≠ f.filterName w.symbols b.name ∧
        (∃ s, h.sink a = pure s ∧
          h.classBytes (s.expected ++ ".class") =
            some <$> h.chain.applyContent w.symbols a a.bytes) ∧
        ∃ s, h.sink b = pure s ∧
          h.classBytes (s.expected ++ ".class") =
            some <$> h.chain.applyContent w.symbols b b.bytes := by
  intro t a b w
  obtain ⟨f, hf⟩ := Filter.exists_table (t := t) (by decide +kernel) (documentCodec none)
  have founda : w.find? a.name = some a := Workspace.find?_addPrimaries (by decide) (by simp) _
  have foundb : w.find? b.name = some b := Workspace.find?_addPrimaries (by decide) (by simp) _
  have spareda : t.Spares a.name := Or.inl (by decide +kernel)
  have sparedb : t.Spares b.name := Or.inl (by decide +kernel)
  obtain ⟨_, apart, served⟩ := table_handoff_agrees w t (documentCodec none) hf
  refine ⟨f, hf, ?_, ?_, ?_⟩
  · intro same
    have name := congrArg ClassInfo.name (apart a b founda foundb spareda sparedb same)
    exact absurd name (by decide)
  · obtain ⟨s, hs, -, file⟩ := served a founda spareda
    exact ⟨s, hs, file⟩
  · obtain ⟨s, hs, -, file⟩ := served b foundb sparedb
    exact ⟨s, hs, file⟩

/-- A class that the table renames to another one of the workspace: the other one is served with the
content of the first. A class with the name of a file is served with the content of another one as
well. -/
theorem table_serves_another_class :
    let t : MappingTable := .ofEntries [.class "a/A" "b/B"]
    let a : ClassInfo := .ofClass { name := "a/A" } "\x7b\"name\":\"a/A\"\x7d".toUTF8
    let b : ClassInfo := .ofClass { name := "b/B" } "\x7b\"name\":\"b/B\"\x7d".toUTF8
    let file : ClassInfo :=
      .ofClass { name := "b/B.class" } "\x7b\"name\":\"b/B.class\"\x7d".toUTF8
    let w : Workspace := [a, b, file].foldl .addPrimary {}
    ∃ f : Filter Id, Filter.table t (documentCodec none) = .ok f ∧
      let h : Handoff Id := ⟨w.symbols, [f]⟩
      let content (info : ClassInfo) := h.chain.applyContent w.symbols info info.bytes
      (∀ info ∈ [a, b, file], w.find? info.name = some info) ∧
        f.filterName w.symbols b.name = pure b.name ∧
        f.filterName w.symbols a.name = pure b.name ∧
        f.unfilterName w.symbols b.name = pure a.name ∧
        h.sink b = pure ⟨b.name, none⟩ ∧
        h.classBytes b.name = some <$> content a ∧ content a ≠ content b ∧
        h.sink file = pure ⟨file.name, none⟩ ∧
        h.classBytes file.name = some <$> content a ∧ content a ≠ content file := by
  intro t a b file w
  obtain ⟨f, hf⟩ := Filter.exists_table (t := t) (by decide +kernel) (documentCodec none)
  have found : ∀ info ∈ [a, b, file], w.find? info.name = some info :=
    fun info hi => Workspace.find?_addPrimaries (by decide) hi _
  have outside : t.outside a.name = b.name ∧ t.outside b.name = b.name ∧
      t.outside file.name = file.name := by decide +kernel
  have spared : t.Spares a.name := Or.inl (by decide +kernel)
  have served : ∀ requested, withoutSuffix requested = b.name →
      (Handoff.mk w.symbols [f]).classBytes requested =
        some <$> FilterChain.applyContent [f] w.symbols a a.bytes := by
    intro requested hr
    rw [← outside.1] at hr
    exact Handoff.classBytes_table hf (found a (by simp)) spared hr
  -- the content of `a/A` is the only one that renaming changes
  let r : Renamer := ⟨t.mapping, some w.symbols⟩
  have renamed : (r.remapBytes (documentCodec none) a.bytes).toOption.map ByteArray.size = some 259 :=
    by decide +kernel
  have kept : ∀ info ∈ [b, file], r.remapBytes (documentCodec none) info.bytes = .ok info.bytes := by
    intro info hi
    rw [← toOption_eq_some_iff]
    revert info
    decide +kernel
  have different : ∀ info ∈ [b, file], r.remapBytes (documentCodec none) a.bytes ≠
      r.remapBytes (documentCodec none) info.bytes := by
    intro info hi same
    rw [same, kept info hi] at renamed
    simp only [List.mem_cons, List.not_mem_nil, or_false] at hi
    rcases hi with rfl | rfl
    · exact absurd renamed (by decide +kernel)
    · exact absurd renamed (by decide +kernel)
  refine ⟨f, hf, found, ?_, ?_, ?_, ?_, served b.name (by decide +kernel), ?_, ?_,
    served file.name (by decide +kernel), ?_⟩
  · rw [Filter.filterName_table hf, outside.2.1]
  · rw [Filter.filterName_table hf, outside.1]
  · rw [← outside.1]
    exact (Filter.unfilterName_table_iff hf a.name).2 spared
  · rw [Handoff.sink_table hf, outside.2.1]
  · simp only [Filter.applyContent_table hf]
    exact different b (by simp)
  · rw [Handoff.sink_table hf, outside.2.2]
  · simp only [Filter.applyContent_table hf]
    exact different file (by simp)

end Pseudonym
