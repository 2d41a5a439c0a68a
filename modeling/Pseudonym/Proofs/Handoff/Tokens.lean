import Mathlib.Data.List.Nodup
import Pseudonym.Document
import Pseudonym.Proofs.Handoff
import Pseudonym.Proofs.Workspace

/-!
# Which names outside are taken back

Under tokens a primary class is known outside by its token, and every other class by its own name.
A name outside is taken back by its looks: what decodes to the name of a primary class is taken for
the token of that class. A library whose name has these looks is taken for a class that it is not,
and this is the only way to go wrong:

    classOfToken (outside name) = name  ↔  name is not mistaken.

Decoding is more generous than encoding, so not every mistaken name is a token that some class gets.
One that is makes two classes share their name outside, and nothing else does. The mapping that
renames what the classes contain refuses the names of libraries that look like tokens
(`Mapping.inScope`), so whatever it answers for is taken back.
-/

namespace Pseudonym

open Std

/-! ### The way out and back -/

namespace Filter

/-- The name of a class outside, under tokens. -/
def outside (m : Markers) (symbols : SymbolSource) (name : String) : String :=
  if symbols.isPrimary name then String.ofList (m.encodeText true name.toList) else name

/-- A name that is read as the token of a primary class, but is the name of another class that is
not primary. -/
structure Mistaken (m : Markers) (symbols : SymbolSource) (name : String) : Prop where
  foreign : symbols.isPrimary name = false
  read : ∃ p, symbols.isPrimary p = true ∧ m.decode name = .ok p

/-- A name that the primary class `p` has outside, but that is the name of another class that is not
primary. -/
structure Clashes (m : Markers) (symbols : SymbolSource) (name p : String) : Prop where
  foreign : symbols.isPrimary name = false
  primary : symbols.isPrimary p = true
  encoded : m.encode p true = .ok name

variable {m : Markers} {symbols : SymbolSource} {name name' token p : String}

theorem outside_of_isPrimary (primary : symbols.isPrimary name = true) :
    outside m symbols name = String.ofList (m.encodeText true name.toList) := if_pos primary

theorem outside_of_foreign (foreign : symbols.isPrimary name = false) :
    outside m symbols name = name := by
  rw [outside, foreign]
  rfl

/-- Every class has a name outside, but for primary classes whose names carry the markers. -/
theorem tokenOfClass_eq_ok_iff_outside :
    tokenOfClass m symbols name = .ok token ↔
      (symbols.isPrimary name = true → m.carries name = false) ∧ outside m symbols name = token := by
  cases primary : symbols.isPrimary name with
  | true =>
    rw [tokenOfClass_eq_ok_iff primary, Markers.encode_eq_ok_iff, outside_of_isPrimary primary]
    simp only [forall_const, eq_comm]
  | false =>
    rw [outside_of_foreign primary, tokenOfClass, primary]
    simp

theorem filterName_transparent_eq_pure_iff {reserved : List String} {codec : ClassCodec} :
    (transparent m reserved codec : Filter Id).filterName symbols name = pure token ↔
      (symbols.isPrimary name = true → m.carries name = false) ∧ outside m symbols name = token :=
  tokenOfClass_eq_ok_iff_outside

theorem classOfToken_of_unread
    (h : ∀ p, symbols.isPrimary p = true → m.decode token ≠ .ok p) :
    classOfToken m symbols token = token := by
  unfold classOfToken
  split
  · split
    · next p decoded =>
      rw [if_neg fun primary => h p primary decoded]
    · rfl
  · rfl

/-- **A name leads out and back to itself unless it is mistaken.** -/
theorem classOfToken_outside_iff :
    classOfToken m symbols (outside m symbols name) = name ↔ ¬ Mistaken m symbols name := by
  cases primary : symbols.isPrimary name with
  | true =>
    have back := classOfToken_of_decode primary (m.decode_encodeText true name)
    rw [outside_of_isPrimary primary]
    refine iff_of_true back fun mistaken => ?_
    exact absurd (primary.symm.trans mistaken.foreign) (by decide)
  | false =>
    rw [outside_of_foreign primary]
    by_cases read : ∃ p, symbols.isPrimary p = true ∧ m.decode name = .ok p
    · obtain ⟨p, isPrimary, decoded⟩ := read
      rw [classOfToken_of_decode isPrimary decoded]
      refine iff_of_false ?_ (not_not.2 ⟨primary, p, isPrimary, decoded⟩)
      rintro rfl
      exact absurd (isPrimary.symm.trans primary) (by decide)
    · refine iff_of_true ?_ fun mistaken => read mistaken.read
      exact classOfToken_of_unread fun p isPrimary decoded => read ⟨p, isPrimary, decoded⟩

/-- A primary class has the name of a library outside only as its token. -/
theorem clashes_of_outside_eq (foreign : symbols.isPrimary name = false)
    (primary : symbols.isPrimary p = true) (free : m.carries p = false)
    (same : outside m symbols p = name) : Clashes m symbols name p := by
  rw [outside_of_isPrimary primary] at same
  exact ⟨foreign, primary, Markers.encode_eq_ok_iff.2 ⟨free, same.symm⟩⟩

theorem Clashes.outside_eq (h : Clashes m symbols name p) :
    outside m symbols name = outside m symbols p := by
  rw [outside_of_foreign h.foreign, outside_of_isPrimary h.primary]
  exact (Markers.encode_eq_ok_iff.1 h.encoded).2

/-- **Two classes share a name outside exactly if one has the token of the other for a name.** -/
theorem outside_eq_iff (free : symbols.isPrimary name = true → m.carries name = false)
    (free' : symbols.isPrimary name' = true → m.carries name' = false) :
    outside m symbols name = outside m symbols name' ↔
      name = name' ∨ Clashes m symbols name name' ∨ Clashes m symbols name' name := by
  constructor
  · intro same
    cases primary : symbols.isPrimary name <;> cases primary' : symbols.isPrimary name'
    · rw [outside_of_foreign primary, outside_of_foreign primary'] at same
      exact Or.inl same
    · rw [outside_of_foreign primary] at same
      exact Or.inr (Or.inl (clashes_of_outside_eq primary primary' (free' primary') same.symm))
    · rw [outside_of_foreign primary'] at same
      exact Or.inr (Or.inr (clashes_of_outside_eq primary' primary (free primary) same))
    · rw [outside_of_isPrimary primary, outside_of_isPrimary primary'] at same
      have decoded := m.decode_encodeText true name
      rw [same, m.decode_encodeText true name'] at decoded
      exact Or.inl (Except.ok.inj decoded).symm
  · rintro (rfl | clash | clash)
    · rfl
    · exact clash.outside_eq
    · exact clash.outside_eq.symm

end Filter

/-! ### The list of all names -/

/-- Steps without effects, one for each of some inputs, are one step without effects. -/
theorem mapM_settle {μ : Type → Type} [Monad μ] [LawfulMonad μ] {α β : Type}
    (f : α → Except Error β) (xs : List α) :
    (xs.mapM fun x => Filter.settle (f x) : ExceptT Error μ (List β)) =
      Filter.settle (xs.mapM f) := by
  induction xs with
  | nil => rfl
  | cons x xs ih =>
    rw [List.mapM_cons, List.mapM_cons, settle_bind, ih]
    refine congrArg _ (funext fun y => ?_)
    rw [settle_bind]
    rfl

section

variable {m : Markers} {reserved : List String} {codec : ClassCodec} {debug : Option StripConfig}
  {symbols : SymbolSource}

theorem mapM_tokenOfClass_eq_ok_iff {names entries : List String} :
    names.mapM (Filter.tokenOfClass m symbols) = .ok entries ↔
      (∀ name ∈ names, symbols.isPrimary name = true → m.carries name = false) ∧
        names.map (Filter.outside m symbols) = entries := by
  induction names generalizing entries with
  | nil =>
    rw [List.mapM_nil, pure_eq_ok_iff]
    simp
  | cons name names ih =>
    simp only [List.mapM_cons, bind_eq_ok_iff, pure_eq_ok_iff, ih,
      Filter.tokenOfClass_eq_ok_iff_outside, List.forall_mem_cons, List.map_cons]
    constructor
    · rintro ⟨_, ⟨free, rfl⟩, _, ⟨others, rfl⟩, rfl⟩
      exact ⟨⟨free, others⟩, rfl⟩
    · rintro ⟨⟨free, others⟩, rfl⟩
      exact ⟨_, ⟨free, rfl⟩, _, ⟨others, rfl⟩, rfl⟩

/-- The list of all names outside is there if every primary class has one. -/
theorem libraryEntries_eq_pure_iff {w : Workspace} {entries : List String} :
    (Handoff.mk w.symbols (tokenChain m reserved codec debug)).libraryEntries = pure entries ↔
      (∀ name ∈ w.names, w.symbols.isPrimary name = true → m.carries name = false) ∧
        w.names.map (Filter.outside m w.symbols) = entries := by
  rw [Handoff.libraryEntries, funext applyName_tokenChain, mapM_settle]
  exact mapM_tokenOfClass_eq_ok_iff

/-- **No name is listed twice unless a library has the token of a primary class for a name.** -/
theorem nodup_libraryEntries_iff {w : Workspace} {entries : List String}
    (h : (Handoff.mk w.symbols (tokenChain m reserved codec debug)).libraryEntries =
      pure entries) :
    entries.Nodup ↔ ∀ name ∈ w.names, ∀ p, ¬ Filter.Clashes m w.symbols name p := by
  obtain ⟨free, rfl⟩ := libraryEntries_eq_pure_iff.1 h
  rw [List.nodup_map_iff_inj_on w.nodup_names]
  constructor
  · intro apart name listed p clash
    have same := apart name listed p (Workspace.mem_names_of_isPrimary clash.primary)
      clash.outside_eq
    have primary := clash.primary
    rw [← same, clash.foreign] at primary
    exact absurd primary (by decide)
  · intro noClash name listed name' listed' same
    rcases (Filter.outside_eq_iff (free name listed) (free name' listed')).1 same with
      same | clash | clash
    · exact same
    · exact absurd clash (noClash name listed name')
    · exact absurd clash (noClash name' listed' name)

/-- What the generated mapping answers for a class is its name outside, and is taken back. -/
theorem Mapping.classOfToken_of_className {name : String} {found : Option String}
    (h : (generated symbols m reserved).className name = .ok found) :
    Filter.tokenOfClass m symbols name = .ok (found.getD name) ∧
      Filter.classOfToken m symbols (found.getD name) = name := by
  rcases tokenIn_eq_ok_iff.1 h with ⟨primary, token, encoded, rfl⟩ | ⟨foreign, free, rfl⟩
  · exact ⟨(Filter.tokenOfClass_eq_ok_iff primary).2 encoded,
      Filter.classOfToken_encode primary encoded⟩
  · refine ⟨?_, ?_⟩
    · rw [Filter.tokenOfClass, foreign]
      rfl
    · rw [Option.getD_none, Filter.classOfToken, free]
      rfl

end

/-! ### Taking names back -/

/-- **The names outside under tokens are those of the classes, but for libraries that look like
tokens.**  A name leads out and back to itself exactly if it is not mistaken for another class, two
classes share a name outside exactly if one has the token of the other for a name, and so no name is
listed twice exactly if no library has the token of a primary class for a name. Where the generated
mapping answers for a class, the filter gives it the same name outside, and takes it back. -/
theorem names_taken_back_iff (w : Workspace) (m : Markers) (reserved : List String)
    (codec : ClassCodec) (debug : Option StripConfig) :
    let f : Filter Id := .transparent m reserved codec
    let h : Handoff Id := ⟨w.symbols, tokenChain m reserved codec debug⟩
    (∀ name outside, f.filterName w.symbols name = pure outside →
      (f.unfilterName w.symbols outside = pure name ↔ ¬ Filter.Mistaken m w.symbols name)) ∧
    (∀ name name' outside outside', f.filterName w.symbols name = pure outside →
      f.filterName w.symbols name' = pure outside' →
      (outside = outside' ↔ name = name' ∨ Filter.Clashes m w.symbols name name' ∨
        Filter.Clashes m w.symbols name' name)) ∧
    (∀ entries, h.libraryEntries = pure entries →
      (entries.Nodup ↔ ∀ name ∈ w.names, ∀ p, ¬ Filter.Clashes m w.symbols name p)) ∧
    (∀ name found, (Mapping.generated w.symbols m reserved).className name = .ok found →
      f.filterName w.symbols name = pure (found.getD name) ∧
        f.unfilterName w.symbols (found.getD name) = pure name) := by
  intro f h
  refine ⟨?_, ?_, fun entries => nodup_libraryEntries_iff, fun name found =>
    Mapping.classOfToken_of_className⟩
  · intro name outside named
    obtain ⟨_, rfl⟩ := Filter.filterName_transparent_eq_pure_iff.1 named
    exact Filter.classOfToken_outside_iff
  · intro name name' outside outside' named named'
    obtain ⟨free, rfl⟩ := Filter.filterName_transparent_eq_pure_iff.1 named
    obtain ⟨free', rfl⟩ := Filter.filterName_transparent_eq_pure_iff.1 named'
    exact Filter.outside_eq_iff free free'

/-- A library with the token of a class that is not in the workspace for a name. -/
theorem names_taken_back_iff_foreign :
    let token := "veil_Ab3xY7q_a__Zk2Pw_mask/veil_Ab3xY7q_B__Zk2Pw_mask"
    let other := "veil_Ab3xY7q_Other__Zk2Pw_mask"
    let infos := [other, "java/lang/Object"].map fun name => ClassInfo.ofClass { name } .empty
    let w : Workspace :=
      .addPrimary (infos.foldl .addLibrary {}) (.ofClass { name := "a/B" } .empty)
    let f : Filter Id := .transparent .sample defaultReserved (documentCodec none)
    let h : Handoff Id := ⟨w.symbols, [f]⟩
    f.filterName w.symbols "a/B" = pure token ∧ f.unfilterName w.symbols token = pure "a/B" ∧
      f.filterName w.symbols other = pure other ∧ f.unfilterName w.symbols other = pure other ∧
      h.libraryEntries = pure [token, "java/lang/Object", other] ∧
      (∀ p, ¬ Filter.Clashes .sample w.symbols other p) ∧ token ≠ other ∧
      f.unfilterName w.symbols "java/lang/Object" = pure "java/lang/Object" := by
  intro token other infos w f h
  obtain ⟨back, apart, listed, answered⟩ :=
    names_taken_back_iff w .sample defaultReserved (documentCodec none) none
  have named : f.filterName w.symbols "a/B" = pure token :=
    Filter.filterName_transparent_eq_pure_iff.2 (by decide +kernel)
  have named' : f.filterName w.symbols other = pure other :=
    Filter.filterName_transparent_eq_pure_iff.2 (by decide +kernel)
  have entries : (Handoff.mk w.symbols
      (tokenChain .sample defaultReserved (documentCodec none) none)).libraryEntries =
        pure [token, "java/lang/Object", other] :=
    libraryEntries_eq_pure_iff.2 (by decide +kernel)
  have known : other ∈ w.names := by decide +kernel
  have noClash : ∀ p, ¬ Filter.Clashes .sample w.symbols other p :=
    (listed _ entries).1 (by decide) other known
  have unmistaken : ¬ Filter.Mistaken .sample w.symbols "a/B" := fun mistaken =>
    absurd mistaken.foreign (by decide +kernel)
  have unmistaken' : ¬ Filter.Mistaken .sample w.symbols other := by
    have encoded : Markers.sample.encode "Other" true = .ok other :=
      Markers.encode_eq_ok_iff.2 (by decide +kernel)
    rintro ⟨_, p, primary, read⟩
    obtain rfl := Except.ok.inj ((Markers.decode_of_encode encoded).symm.trans read)
    exact absurd primary (by decide +kernel)
  have different : token ≠ other := by
    intro same
    rcases (apart _ _ _ _ named named').1 same with equal | clash | clash
    · exact absurd equal (by decide)
    · exact absurd clash.foreign (by decide +kernel)
    · exact noClash _ clash
  have object : (Mapping.generated w.symbols .sample defaultReserved).className "java/lang/Object" =
      .ok none :=
    Mapping.tokenIn_eq_ok_iff.2 (Or.inr (by decide +kernel))
  exact ⟨named, (back _ _ named).2 unmistaken, named', (back _ _ named').2 unmistaken', entries,
    noClash, different, (answered _ _ object).2⟩

/-- A library with the token of a primary class for a name: it keeps its name, which leads back to
the primary class and is listed twice. The generated mapping refuses it. -/
theorem token_of_library_mistaken :
    let token := "veil_Ab3xY7q_a__Zk2Pw_mask/veil_Ab3xY7q_B__Zk2Pw_mask"
    let w : Workspace := .addLibrary (.addPrimary {} (.ofClass { name := "a/B" } .empty))
      (.ofClass { name := token } .empty)
    let f : Filter Id := .transparent .sample defaultReserved (documentCodec none)
    let h : Handoff Id := ⟨w.symbols, [f]⟩
    w.names = ["a/B", token] ∧
      f.filterName w.symbols "a/B" = pure token ∧ f.filterName w.symbols token = pure token ∧
      f.unfilterName w.symbols token = pure "a/B" ∧ h.libraryEntries = pure [token, token] ∧
      (Mapping.generated w.symbols .sample defaultReserved).className token =
        .error (.alreadyRenamed token) := by
  intro token w f h
  have primary : w.symbols.isPrimary "a/B" = true := by decide +kernel
  have encoded : Markers.sample.encode "a/B" true = .ok token :=
    Markers.encode_eq_ok_iff.2 (by decide +kernel)
  have named : f.filterName w.symbols token = pure token :=
    Filter.filterName_transparent_eq_pure_iff.2 (by decide +kernel)
  have entries : (Handoff.mk w.symbols
      (tokenChain .sample defaultReserved (documentCodec none) none)).libraryEntries =
        pure [token, token] :=
    libraryEntries_eq_pure_iff.2 (by decide +kernel)
  refine ⟨by decide +kernel, (Filter.tokenOfClass_eq_ok_iff primary).2 encoded, named,
    Filter.classOfToken_encode primary encoded, entries, ?_⟩
  rw [Mapping.className_of_isEncoded (Markers.isEncoded_of_encode encoded)]
  decide +kernel

end Pseudonym
