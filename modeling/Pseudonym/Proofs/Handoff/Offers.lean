import Pseudonym.Mapping.Listing
import Pseudonym.Proofs.Handoff.Table

/-!
# What a sink takes

A sink reads every name that it is offered with slashes for its points and compares it with the name
that it expects,

    s.expects name  ↔  slashed name = s.expected.

So it takes the first text that comes under this name or under this name with points, and refuses
everything else (`keepsFirst_iff`). This only works out for names without points: nothing becomes a
name with a point, and a sink that expects one takes nothing at all, not even under that very name.
Tokens hold no points. A name with a point is one that a table gives, or that the class has and no
filter changes (`FilterChain.exists_of_applyName`).
-/

namespace Pseudonym

namespace Sink

variable {s : Sink} {name : String} {wanted : String → Prop}

/-- Whether of every run of offers the first one that is wanted is kept, and all others are refused
and change nothing. -/
structure KeepsFirst (s : Sink) (wanted : String → Prop) : Prop where
  refuses (offers : List (String × String)) (unwanted : ∀ offer ∈ offers, ¬ wanted offer.1) :
    s.acceptAll offers = (offers.map fun _ => false, s)
  keeps (before : List (String × String)) (name text : String) (after : List (String × String))
    (unwanted : ∀ offer ∈ before, ¬ wanted offer.1) (first : wanted name) :
    s.acceptAll (before ++ (name, text) :: after) =
      (before.map (fun _ => false) ++ true :: after.map fun _ => false,
        { s with content := some text })

theorem expects_iff : s.expects name = true ↔ slashed name = s.expected := beq_iff_eq

/-- Offers under other names are refused and change nothing. -/
theorem acceptAll_of_unexpected (empty : s.content = none) {offers : List (String × String)}
    (others : ∀ offer ∈ offers, slashed offer.1 ≠ s.expected) :
    s.acceptAll offers = (offers.map fun _ => false, s) := by
  induction offers with
  | nil => rfl
  | cons offer offers ih =>
    obtain ⟨name, text⟩ := offer
    rw [List.forall_mem_cons] at others
    rw [acceptAll, accept_of_empty empty, if_neg fun expected => others.1 (expects_iff.1 expected)]
    simp only [ih others.2, List.map_cons]

/-- **A sink keeps the first text under the names that it expects**, and under no other names. -/
theorem keepsFirst_iff (empty : s.content = none) :
    s.KeepsFirst wanted ↔ ∀ name, wanted name ↔ slashed name = s.expected := by
  constructor
  · intro h name
    -- One offer tells whether its name is wanted.
    have answer : (s.acceptAll [(name, "")]).1 = [s.expects name] := by
      rw [acceptAll, accept_of_empty empty]
      cases s.expects name <;> rfl
    rw [← expects_iff]
    by_cases isWanted : wanted name
    · have kept := h.keeps [] name "" [] (by simp) isWanted
      rw [List.nil_append] at kept
      rw [kept] at answer
      exact iff_of_true isWanted (List.singleton_inj.1 answer).symm
    · have refused := h.refuses [(name, "")] (by simpa using isWanted)
      rw [refused] at answer
      refine iff_of_false isWanted ?_
      rw [← (List.singleton_inj.1 answer : false = s.expects name)]
      exact Bool.false_ne_true
  · intro agree
    constructor
    · intro offers unwanted
      exact acceptAll_of_unexpected empty fun offer hoffer =>
        (not_congr (agree _)).1 (unwanted offer hoffer)
    · intro before name text after unwanted first
      have others : s.acceptAll before = (before.map fun _ => false, s) :=
        acceptAll_of_unexpected empty fun offer hoffer =>
          (not_congr (agree _)).1 (unwanted offer hoffer)
      have full : ({ s with content := some text } : Sink).content = some text := rfl
      rw [acceptAll_append, others]
      simp only [acceptAll, accept_of_empty empty, expects_iff.2 ((agree name).1 first), if_true,
        acceptAll_of_full full]

/-! ### Points -/

theorem point_notMem_slashed (name : String) : '.' ∉ (slashed name).toList := by
  rw [slashed, String.toList_ofList, List.mem_map]
  rintro ⟨c, _, point⟩
  split at point
  · exact absurd point (by decide)
  · next other => exact other point

theorem slashed_eq_self_iff : slashed name = name ↔ '.' ∉ name.toList :=
  ⟨fun same => same ▸ point_notMem_slashed name, slashed_of_notMem⟩

/-- Nothing is taken for a name with a point. -/
theorem slashed_ne_of_point (point : '.' ∈ s.expected.toList) (name : String) :
    slashed name ≠ s.expected := fun same => point_notMem_slashed name (same ▸ point)

/-- The expected name itself is among those that are taken exactly if it has no point. -/
theorem keepsFirst_expected_iff (empty : s.content = none) :
    s.KeepsFirst (fun name => name = s.expected ∨ slashed name = s.expected) ↔
      '.' ∉ s.expected.toList := by
  rw [keepsFirst_iff empty, ← slashed_eq_self_iff]
  constructor
  · exact fun agree => (agree s.expected).1 (Or.inl rfl)
  · intro same name
    refine ⟨?_, Or.inr⟩
    rintro (rfl | expected)
    · exact same
    · exact expected

end Sink

/-! ### Names behind a chain -/

/-- The filters there are. Those that rename by a table have it from a list. -/
inductive Filter.IsKnown {m : Type → Type} [Monad m] (tables : List MappingTable) :
    Filter m → Prop where
  | transparent (markers : Markers) (reserved : List String) (codec : ClassCodec) :
    IsKnown tables (.transparent markers reserved codec)
  | table {t : MappingTable} {codec : ClassCodec} {f : Filter m} (listed : t ∈ tables)
    (made : Filter.table t codec = .ok f) : IsKnown tables f
  | strip (config : StripConfig) (codec : ClassCodec) : IsKnown tables (.strip config codec)

section

variable {tables : List MappingTable} {symbols : SymbolSource} {f : Filter Id}
  {chain : FilterChain Id} {name out : String}

/-- A filter writes a point only where there was one, or where a table has it. -/
theorem Filter.IsKnown.exists_of_filterName (known : f.IsKnown tables)
    (h : f.filterName symbols name = pure out) (point : '.' ∈ out.toList) :
    out = name ∨ ∃ t ∈ tables, ∃ old : String, t.classes[old]? = some out := by
  cases known with
  | transparent markers reserved codec =>
    cases primary : symbols.isPrimary name with
    | true =>
      have encoded : markers.encode name true = .ok out :=
        (Filter.tokenOfClass_eq_ok_iff primary).1 h
      exact absurd point (Markers.notMem_encode (by decide) (by decide) encoded)
    | false =>
      have kept : Filter.tokenOfClass markers symbols name = .ok out := h
      rw [Filter.tokenOfClass, primary] at kept
      exact Or.inl (Except.ok.inj kept).symm
  | @table t codec _ listed made =>
    rw [Filter.filterName_table made] at h
    have written : t.classes[name]?.getD name = out := Except.ok.inj h
    cases given : t.classes[name]? with
    | some new =>
      rw [given] at written
      exact Or.inr ⟨t, listed, name, given.trans (congrArg some written)⟩
    | none =>
      rw [given] at written
      exact Or.inl written.symm
  | strip config codec => exact Or.inl (Except.ok.inj h).symm

/-- Without effects a filter is called only on what the one before it answered. -/
theorem FilterChain.applyName_cons_eq_pure_iff :
    applyName (f :: chain) symbols name = pure out ↔ ∃ middle,
      f.filterName symbols name = pure middle ∧ chain.applyName symbols middle = pure out := by
  rw [applyName, List.foldlM_cons]
  cases called : (f.filterName symbols name : Except Error String) with
  | error e =>
    constructor
    · intro failed
      cases (show Except.error e = Except.ok out from failed)
    · rintro ⟨middle, answered, -⟩
      cases (show Except.error e = Except.ok middle from answered)
  | ok middle =>
    constructor
    · exact fun rest => ⟨middle, rfl, rest⟩
    · rintro ⟨middle', answered, rest⟩
      exact Except.ok.inj answered ▸ rest

/-- **A name with a point behind a chain** is the name that the class has, or one that a table
gives. -/
theorem FilterChain.exists_of_applyName (known : ∀ f ∈ chain, f.IsKnown tables)
    (h : chain.applyName symbols name = pure out) (point : '.' ∈ out.toList) :
    out = name ∨ ∃ t ∈ tables, ∃ old : String, t.classes[old]? = some out := by
  induction chain generalizing name with
  | nil => exact Or.inl (Except.ok.inj h).symm
  | cons f chain ih =>
    rw [List.forall_mem_cons] at known
    obtain ⟨middle, called, rest⟩ := applyName_cons_eq_pure_iff.1 h
    rcases ih known.2 rest with rfl | given
    · exact known.1.exists_of_filterName called point
    · exact Or.inr given

end

/-! ### Sinks -/

/-- **A sink keeps the first text that is offered under its name, if its name has no point.**  In
every run of offers it takes the first one whose name is the expected one when slashes stand for its
points, and refuses all others, which change nothing. The expected name is always among these
names exactly if it has no point, and otherwise the sink takes nothing. A point comes from the name
of the class, or from a new name in a table. -/
theorem sink_keeps_first {tables : List MappingTable} {chain : FilterChain Id}
    (known : ∀ f ∈ chain, f.IsKnown tables) (symbols : SymbolSource) {info : ClassInfo} {s : Sink}
    (hs : (Handoff.mk symbols chain).sink info = pure s) :
    s.KeepsFirst (Sink.slashed · = s.expected) ∧
    (s.KeepsFirst (fun name => name = s.expected ∨ Sink.slashed name = s.expected) ↔
      '.' ∉ s.expected.toList) ∧
    ('.' ∈ s.expected.toList → ∀ offers, s.acceptAll offers = (offers.map fun _ => false, s)) ∧
    ('.' ∈ s.expected.toList → s.expected = info.name ∨
      ∃ t ∈ tables, ∃ old : String, t.classes[old]? = some s.expected) := by
  obtain ⟨applied, empty⟩ := Handoff.of_sink hs
  refine ⟨(Sink.keepsFirst_iff empty).2 fun _ => Iff.rfl, Sink.keepsFirst_expected_iff empty, ?_,
    FilterChain.exists_of_applyName known applied⟩
  intro point offers
  exact Sink.acceptAll_of_unexpected empty fun offer _ => Sink.slashed_ne_of_point point offer.1

/-- A class that two tables rename one after the other, the first one with a point. -/
theorem sink_keeps_first_renamed :
    let t : MappingTable := .ofEntries [.class "a/A" "b.B"]
    let t' : MappingTable := .ofEntries [.class "b.B" "c/C"]
    let info : ClassInfo := .ofClass { name := "a/A" } .empty
    let w : Workspace := .addPrimary {} info
    ∃ f f' : Filter Id, Filter.table t (documentCodec none) = .ok f ∧
      Filter.table t' (documentCodec none) = .ok f' ∧
      let h : Handoff Id := ⟨w.symbols, [f, f', .strip {} (documentCodec none)]⟩
      ∃ s, h.sink info = pure s ∧ s.expected = "c/C" ∧
        s.acceptAll [("b.B", "0"), ("c.C", "1"), ("c/C", "2")] =
          ([false, true, false], { s with content := some "1" }) := by
  intro t t' info w
  obtain ⟨f, hf⟩ := Filter.exists_table (t := t) (by decide +kernel) (documentCodec none)
  obtain ⟨f', hf'⟩ := Filter.exists_table (t := t') (by decide +kernel) (documentCodec none)
  refine ⟨f, f', hf, hf', ?_⟩
  intro h
  have known : ∀ g ∈ h.chain, g.IsKnown [t, t'] := by
    intro g hg
    simp only [h, List.mem_cons, List.not_mem_nil, or_false] at hg
    rcases hg with rfl | rfl | rfl
    · exact .table (by simp) hf
    · exact .table (by simp) hf'
    · exact .strip {} (documentCodec none)
  have names : t.outside "a/A" = "b.B" ∧ t'.outside "b.B" = "c/C" := by decide +kernel
  have applied : h.chain.applyName h.symbols info.name = pure "c/C" := by
    rw [FilterChain.applyName, List.foldlM_cons, Filter.filterName_table hf]
    show (pure (t.outside "a/A") >>= _ : ExceptT Error Id String) = _
    rw [names.1, pure_bind, List.foldlM_cons, Filter.filterName_table hf', names.2]
    rfl
  have hs : h.sink info = pure ⟨"c/C", none⟩ := by
    rw [Handoff.sink, applied]
    rfl
  obtain ⟨_, named, -⟩ := sink_keeps_first known w.symbols hs
  have keeps := named.2 (by decide)
  exact ⟨_, hs, rfl, keeps.keeps [("b.B", "0")] "c.C" "1" [("c/C", "2")] (by decide +kernel)
    (Or.inr (by decide +kernel))⟩

/-- A sink that expects a name with a point refuses a text under this name. -/
theorem name_with_point_is_refused :
    let info : ClassInfo := .ofClass { name := "app/Main" } .empty
    let w : Workspace := .addPrimary {} info
    ∃ t, MappingTable.parse "app/Main app.Entry\n" = .ok t ∧
      ∃ f : Filter Id, Filter.table t (documentCodec none) = .ok f ∧
        ∃ s, (Handoff.mk w.symbols [f]).sink info = pure s ∧ s.expected = "app.Entry" ∧
          s.acceptAll [("app.Entry", "class Entry"), ("app/Entry", "class Entry")] =
            ([false, false], s) ∧
          ¬ s.KeepsFirst fun name => name = s.expected ∨ Sink.slashed name = s.expected := by
  intro info w
  obtain ⟨t, read⟩ : ∃ t, (MappingTable.parse "app/Main app.Entry\n").toOption = some t :=
    Option.isSome_iff_exists.1 (by decide +kernel)
  have known : (MappingTable.parse "app/Main app.Entry\n").toOption.map
      (fun t => (t.outside "app/Main", t.invertClasses.toOption.isSome)) =
        some ("app.Entry", true) := by decide +kernel
  rw [read, Option.map_some, Option.some.injEq, Prod.mk.injEq] at known
  obtain ⟨outside, invertible⟩ := known
  obtain ⟨f, hf⟩ := Filter.exists_table invertible (documentCodec none)
  have hs : (Handoff.mk w.symbols [f]).sink info = pure ⟨t.outside info.name, none⟩ :=
    Handoff.sink_table hf info
  rw [show t.outside info.name = "app.Entry" from outside] at hs
  refine ⟨t, toOption_eq_some_iff.1 read, f, hf, _, hs, rfl, by decide +kernel, ?_⟩
  rw [Sink.keepsFirst_expected_iff rfl]
  decide

end Pseudonym
