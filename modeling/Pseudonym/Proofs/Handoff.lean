import Pseudonym.Handoff
import Pseudonym.Proofs.Generated

/-!
# The class that is asked for is the one that is handed out

A decompiler is told a name outside, asks for a class by it and hands back text under it. Three
things must agree for this to work: the name that the sink expects (`FilterChain.applyName`), the
class that is found by it (`FilterChain.unapplyName`) and the name that the content bears
(`FilterChain.applyContent`). Under tokens all three come down to one encoding,

    name  ↦  m.encode name true,

which is undone by decoding, and whose result holds no point, so that neither the suffix `.class`
nor points for slashes can blur it. The second part of the file is about the sink alone: a run of
offers leaves the first text that was offered under the expected name.
-/

namespace Pseudonym

/-! ### A run of offers -/

namespace Sink

/-- The answers to a run of offers, and the sink behind it. -/
def acceptAll (s : Sink) : List (String × String) → List Bool × Sink
  | [] => ([], s)
  | (name, text) :: offers =>
    let (kept, next) := s.accept name text
    let (answers, last) := acceptAll next offers
    (kept :: answers, last)

/-- A name with points for slashes. -/
def dotted (name : String) : String :=
  String.ofList (name.toList.map fun c => if c = '/' then '.' else c)

variable {s : Sink}

theorem accept_of_full {text : String} (h : s.content = some text) (name text' : String) :
    s.accept name text' = (false, s) := by
  rw [accept, h]
  simp

/-- A sink that has its text keeps it and refuses every offer. -/
theorem acceptAll_of_full {text : String} (h : s.content = some text)
    (offers : List (String × String)) :
    s.acceptAll offers = (offers.map fun _ => false, s) := by
  induction offers with
  | nil => rfl
  | cons offer offers ih =>
    obtain ⟨name, text'⟩ := offer
    rw [acceptAll, accept_of_full h]
    simp only [ih, List.map_cons]

/-- The sink that some offers leave is the one that gets the next offers. -/
theorem acceptAll_append (s : Sink) (offers more : List (String × String)) :
    s.acceptAll (offers ++ more) =
      ((s.acceptAll offers).1 ++ ((s.acceptAll offers).2.acceptAll more).1,
        ((s.acceptAll offers).2.acceptAll more).2) := by
  induction offers generalizing s with
  | nil => rfl
  | cons offer offers ih =>
    obtain ⟨name, text⟩ := offer
    rw [List.cons_append, acceptAll, acceptAll]
    simp only [ih, List.cons_append]

theorem accept_of_empty (h : s.content = none) (name text : String) :
    s.accept name text =
      if s.expects name then (true, { s with content := some text }) else (false, s) := by
  rw [accept, h]
  simp

theorem acceptAll_cons_of_expected (h : s.content = none) {name : String}
    (expected : s.expects name = true) (text : String) (offers : List (String × String)) :
    s.acceptAll ((name, text) :: offers) =
      (true :: offers.map fun _ => false, { s with content := some text }) := by
  have full : ({ s with content := some text } : Sink).content = some text := rfl
  simp only [acceptAll, accept_of_empty h, expected, if_true, acceptAll_of_full full]

theorem acceptAll_cons_of_unexpected (h : s.content = none) {name : String}
    (unexpected : s.expects name = false) (text : String) (offers : List (String × String)) :
    s.acceptAll ((name, text) :: offers) =
      (false :: (s.acceptAll offers).1, (s.acceptAll offers).2) := by
  simp only [acceptAll, accept_of_empty h, unexpected, Bool.false_eq_true, if_false]

/-- **The first text that is offered under the expected name is kept**, and no later one. -/
theorem content_acceptAll (h : s.content = none) (offers : List (String × String)) :
    (s.acceptAll offers).2.content = (offers.find? (s.expects ·.1)).map Prod.snd := by
  induction offers with
  | nil => exact h
  | cons offer offers ih =>
    obtain ⟨name, text⟩ := offer
    rw [List.find?_cons]
    cases expected : s.expects name with
    | true =>
      rw [acceptAll_cons_of_expected h expected]
      rfl
    | false =>
      rw [acceptAll_cons_of_unexpected h expected]
      exact ih

/-- The offer that is kept is the only one that is answered by yes. -/
theorem answers_acceptAll (h : s.content = none) (offers : List (String × String)) (i : Nat) :
    (s.acceptAll offers).1[i]? = some true ↔ offers.findIdx? (s.expects ·.1) = some i := by
  induction offers generalizing i with
  | nil => simp [acceptAll]
  | cons offer offers ih =>
    obtain ⟨name, text⟩ := offer
    rw [List.findIdx?_cons]
    cases expected : s.expects name with
    | true =>
      rw [acceptAll_cons_of_expected h expected]
      cases i with
      | zero => simp
      | succ i =>
        have refused : (offers.map fun _ => false)[i]? ≠ some true := by
          rw [List.getElem?_map]
          cases offers[i]? <;> simp
        simpa using refused
    | false =>
      rw [acceptAll_cons_of_unexpected h expected]
      cases i with
      | zero => simp
      | succ i => simpa using ih i

end Sink

/-! ### Names outside -/

section

variable {symbols : SymbolSource} {m : Markers} {name token : String}

theorem Filter.tokenOfClass_eq_ok_iff (primary : symbols.isPrimary name = true) :
    Filter.tokenOfClass m symbols name = .ok token ↔ m.encode name true = .ok token := by
  rw [Filter.tokenOfClass, if_pos primary]
  split
  · next encoded =>
    rw [Markers.encode_of_isEncoded encoded]
    simp
  · exact Iff.rfl

/-- What decodes to the name of a primary class leads to it. -/
theorem Filter.classOfToken_of_decode (primary : symbols.isPrimary name = true)
    (h : m.decode token = .ok name) : Filter.classOfToken m symbols token = name := by
  simp [Filter.classOfToken, Markers.isEncoded_of_decode h, h, primary]

/-- A token leads back to the primary class that it stands for. -/
theorem Filter.classOfToken_encode (primary : symbols.isPrimary name = true)
    (h : m.encode name true = .ok token) : Filter.classOfToken m symbols token = name :=
  Filter.classOfToken_of_decode primary (Markers.decode_of_encode h)

end

theorem withoutSuffix_of_notMem {name : String} (h : '.' ∉ name.toList) :
    withoutSuffix name = name := by
  unfold withoutSuffix
  split
  · next stem found =>
    have written := List.append_eq_of_isSuffixOf?_eq_some found
    exact absurd (by simp [← written]) h
  · rfl

theorem withoutSuffix_append (name : String) : withoutSuffix (name ++ ".class") = name := by
  have found : ['.', 'c', 'l', 'a', 's', 's'].isSuffixOf? (name ++ ".class").toList =
      some name.toList := by
    rw [List.isSuffixOf?_eq_some_iff_append_eq, String.toList_append]
    rfl
  rw [withoutSuffix, found]
  exact String.ofList_toList

namespace Sink

theorem slashed_of_notMem {name : String} (h : '.' ∉ name.toList) : slashed name = name := by
  have same : name.toList.map (fun c => if c = '.' then '/' else c) = name.toList.map id := by
    refine List.map_congr_left fun c hc => if_neg ?_
    rintro rfl
    exact h hc
  rw [slashed, same, List.map_id, String.ofList_toList]

theorem slashed_dotted {name : String} (h : '.' ∉ name.toList) : slashed (dotted name) = name := by
  have same : (name.toList.map fun c => if c = '/' then '.' else c).map
      (fun c => if c = '.' then '/' else c) = name.toList.map id := by
    rw [List.map_map]
    refine List.map_congr_left fun c hc => ?_
    by_cases slash : c = '/'
    · simp [slash]
    · have point : c ≠ '.' := by
        rintro rfl
        exact h hc
      simp [slash, point]
  rw [slashed, dotted, String.toList_ofList, same, List.map_id, String.ofList_toList]

end Sink

/-! ### Content outside -/

section

variable {codec : ClassCodec} {bytes bytes' : ByteArray} {c : ClassFile} (lawful : codec.Lawful)
include lawful

theorem read_of_remapBytes {r : Renamer} (read : codec.read bytes = .ok c)
    (h : r.remapBytes codec bytes = .ok bytes') :
    ∃ o, r.remap c = .ok o ∧ codec.read bytes' = .ok (if o.isModified then o.result else c) := by
  obtain ⟨c', read', h⟩ := bind_eq_ok_iff.1 h
  obtain rfl := Except.ok.inj (read.symm.trans read')
  obtain ⟨o, renamed, h⟩ := bind_eq_ok_iff.1 h
  refine ⟨o, renamed, ?_⟩
  split at h
  · next modified =>
    rw [if_pos modified]
    exact lawful o.result bytes' h
  · next kept =>
    rw [if_neg kept, ← pure_eq_ok_iff.1 h]
    exact read

theorem read_of_strippedContent {config : StripConfig} (read : codec.read bytes = .ok c)
    (h : Filter.strippedContent config codec bytes = .ok bytes') :
    codec.read bytes' = .ok (if config.touches c then config.strip c else c) := by
  obtain ⟨c', read', h⟩ := bind_eq_ok_iff.1 h
  obtain rfl := Except.ok.inj (read.symm.trans read')
  split at h
  · next touched =>
    rw [if_pos touched]
    exact lawful (config.strip c) bytes' h
  · next kept =>
    rw [if_neg kept, ← pure_eq_ok_iff.1 h]
    exact read

end

/-- A primary class is renamed to its token, which differs from its name. -/
theorem Renamer.name_of_remap_generated {symbols : SymbolSource} {m : Markers}
    {reserved : List String} {src : Option SymbolSource} {c : ClassFile} {o : Remapped}
    {token : String} (primary : symbols.isPrimary c.name = true)
    (encoded : m.encode c.name true = .ok token)
    (h : (generated symbols m reserved src).remap c = .ok o) :
    o.isModified = true ∧ o.result.name = token := by
  have different : token ≠ c.name := by
    rintro rfl
    have refused := Markers.encode_of_isEncoded (Markers.isEncoded_of_encode encoded) true
    rw [encoded] at refused
    exact absurd refused (by simp)
  have found : (Mapping.generated symbols m reserved).className c.name = .ok (some token) :=
    Mapping.tokenIn_eq_ok_iff.2 (Or.inl ⟨primary, token, encoded, rfl⟩)
  have asked : (generated symbols m reserved src).rename (.class c.name) =
      replace c.name (.ok (some token)) := by
    rw [← found]
    rfl
  have mentioned : Mention.class c.name ∈ c.mentions := by simp [ClassFile.mentions]
  constructor
  · refine isModified_of_remap h mentioned ?_
    rw [asked, log_replace different]
    simp
  · rw [(of_remap h).2]
    show (generated symbols m reserved src).answer (.class c.name) = token
    rw [answer, asked, outcome_replace]
    rfl

/-! ### Through the chain -/

/-- Tokens, and then debug data if it is to be removed. -/
def tokenChain (m : Markers) (reserved : List String) (codec : ClassCodec)
    (debug : Option StripConfig) : FilterChain Id :=
  .transparent m reserved codec :: debug.toList.map (.strip · codec)

section

variable {m : Markers} {reserved : List String} {codec : ClassCodec} {debug : Option StripConfig}
  {symbols : SymbolSource}

/-- Removing debug data changes no name. -/
theorem applyName_cons_strip (f : Filter Id) (name : String) :
    FilterChain.applyName (f :: debug.toList.map (.strip · codec)) symbols name =
      f.filterName symbols name := by
  have kept : ∀ name : String, ((debug.toList.map (Filter.strip · codec)).foldlM
      (fun name f => f.filterName symbols name) name : ExceptT Error Id String) = pure name := by
    intro name
    cases debug with
    | none => rfl
    | some config => rfl
  rw [FilterChain.applyName, List.foldlM_cons]
  simp only [kept, bind_pure]

theorem applyName_tokenChain (name : String) :
    (tokenChain m reserved codec debug).applyName symbols name =
      Filter.settle (Filter.tokenOfClass m symbols name) := applyName_cons_strip _ name

theorem unapplyName_tokenChain (name : String) :
    (tokenChain m reserved codec debug).unapplyName symbols name =
      pure (Filter.classOfToken m symbols name) := by
  cases debug with
  | none => rfl
  | some config => rfl

section

variable {μ : Type → Type} [Monad μ] [LawfulMonad μ] {α β : Type}

theorem settle_ok_bind (a : α) (k : α → ExceptT Error μ β) : Filter.settle (.ok a) >>= k = k a :=
  pure_bind a k

theorem settle_error_bind (e : Error) (k : α → ExceptT Error μ β) :
    Filter.settle (.error e) >>= k = Filter.settle (.error e) := by
  refine ExceptT.ext ?_
  rw [ExceptT.run_bind]
  exact pure_bind ..

theorem settle_bind (x : Except Error α) (k : α → Except Error β) :
    (Filter.settle (x >>= k) : ExceptT Error μ β) =
      Filter.settle x >>= fun a => Filter.settle (k a) := by
  cases x with
  | error e => exact (settle_error_bind e fun a => Filter.settle (k a)).symm
  | ok a => exact (settle_ok_bind a fun a => Filter.settle (k a)).symm

end

theorem applyContent_tokenChain (info : ClassInfo) (bytes : ByteArray) :
    (tokenChain m reserved codec debug).applyContent symbols info bytes =
      Filter.settle (Filter.tokenContent m reserved codec symbols info bytes >>= fun bytes =>
        debug.elim (.ok bytes) (Filter.strippedContent · codec bytes)) := by
  have behind : ∀ bytes : ByteArray, ((debug.toList.map (Filter.strip · codec)).foldlM
      (fun bytes f => f.filterContent symbols info bytes) bytes : ExceptT Error Id ByteArray) =
        Filter.settle (debug.elim (.ok bytes) (Filter.strippedContent · codec bytes)) := by
    intro bytes
    cases debug with
    | none => rfl
    | some config => exact bind_pure _
  rw [FilterChain.applyContent, tokenChain, List.foldlM_cons, settle_bind]
  simp only [behind]
  rfl

theorem Handoff.of_sink {chain : FilterChain Id} {info : ClassInfo} {s : Sink}
    (h : (Handoff.mk symbols chain).sink info = pure s) :
    chain.applyName symbols info.name = pure s.expected ∧ s.content = none := by
  rw [sink] at h
  cases applied : (chain.applyName symbols info.name : Except Error String) with
  | error e =>
    rw [applied] at h
    cases (show Except.error e = Except.ok s from h)
  | ok expected =>
    rw [applied] at h
    obtain rfl := Except.ok.inj h
    exact ⟨rfl, rfl⟩

theorem of_sink_tokenChain {info : ClassInfo} {s : Sink}
    (primary : symbols.isPrimary info.name = true)
    (h : (Handoff.mk symbols (tokenChain m reserved codec debug)).sink info = pure s) :
    m.encode info.name true = .ok s.expected ∧ s.content = none := by
  obtain ⟨applied, empty⟩ := Handoff.of_sink h
  rw [applyName_tokenChain] at applied
  exact ⟨(Filter.tokenOfClass_eq_ok_iff primary).1 applied, empty⟩

/-- A primary class is found by the token of its name, and its content goes through the chain. -/
theorem classBytes_tokenChain {info : ClassInfo} {token requested : String}
    (primary : symbols.isPrimary info.name = true) (found : symbols.find? info.name = some info)
    (encoded : m.encode info.name true = .ok token) (hr : withoutSuffix requested = token) :
    (Handoff.mk symbols (tokenChain m reserved codec debug)).classBytes requested =
      some <$> (tokenChain m reserved codec debug).applyContent symbols info info.bytes := by
  have inside : (ExceptT.lift (pure info.name : Id String) : ExceptT Error Id String) =
      pure info.name := rfl
  rw [Handoff.classBytes, unapplyName_tokenChain, hr, Filter.classOfToken_encode primary encoded,
    inside, pure_bind]
  dsimp only
  rw [found]

/-- The class that is handed out bears the token of its name. -/
theorem name_of_applyContent_tokenChain {info : ClassInfo} {c : ClassFile} {bytes : ByteArray}
    {token : String} (lawful : codec.Lawful) (primary : symbols.isPrimary info.name = true)
    (encoded : m.encode info.name true = .ok token)
    (read : codec.read info.bytes = .ok c) (hn : c.name = info.name)
    (h : (tokenChain m reserved codec debug).applyContent symbols info info.bytes = pure bytes) :
    ∃ served, codec.read bytes = .ok served ∧ served.name = token := by
  rw [applyContent_tokenChain] at h
  obtain ⟨renamed, h, stripped⟩ := bind_eq_ok_iff.1 h
  rw [Filter.tokenContent, if_pos primary] at h
  obtain ⟨o, remapped, read⟩ := read_of_remapBytes lawful read h
  obtain ⟨modified, named⟩ :=
    Renamer.name_of_remap_generated (hn ▸ primary) (hn ▸ encoded) remapped
  rw [if_pos modified] at read
  cases debug with
  | none =>
    obtain rfl : renamed = bytes := Except.ok.inj stripped
    exact ⟨o.result, read, named⟩
  | some config =>
    refine ⟨_, read_of_strippedContent lawful read stripped, ?_⟩
    split
    · exact named
    · exact named

end

/-! ### The hand-off -/

/-- **The class that is asked for is the one that is handed out.**  A decompiler that asks for a
primary class by the name that the sink expects, or by this name as a file, is answered with the
content of that class and no other, and the class in it bears the name. The sink takes the first
text that is offered under the name, which may be written with points, and nothing after it. -/
theorem handoff_agrees (w : Workspace) (m : Markers) (reserved : List String) (codec : ClassCodec)
    (debug : Option StripConfig) {info : ClassInfo} {s : Sink} (lawful : codec.Lawful)
    (primary : w.primary[info.name]? = some info)
    (hs : (Handoff.mk w.symbols (tokenChain m reserved codec debug)).sink info = pure s) :
    let h : Handoff Id := ⟨w.symbols, tokenChain m reserved codec debug⟩
    (∀ requested ∈ [s.expected, s.expected ++ ".class"],
      h.classBytes requested = some <$> h.chain.applyContent w.symbols info info.bytes) ∧
    (∀ c bytes, codec.read info.bytes = .ok c → c.name = info.name →
      h.chain.applyContent w.symbols info info.bytes = pure bytes →
        ∃ served, codec.read bytes = .ok served ∧ served.name = s.expected) ∧
    (∀ offers, (s.acceptAll offers).2.content =
      (offers.find? fun offer => Sink.slashed offer.1 = s.expected).map Prod.snd) ∧
    (∀ offers (i : Nat), (s.acceptAll offers).1[i]? = some true ↔
      offers.findIdx? (fun offer => Sink.slashed offer.1 = s.expected) = some i) ∧
    (∀ offers more text, (s.acceptAll offers).2.content = some text →
      (s.acceptAll (offers ++ more)).2.content = some text) ∧
    Sink.slashed s.expected = s.expected ∧ Sink.slashed (Sink.dotted s.expected) = s.expected := by
  intro h
  have isPrimary : w.symbols.isPrimary info.name = true := by
    show w.primary.contains info.name = true
    rw [Std.ExtTreeMap.contains_eq_isSome_getElem?, primary]
    rfl
  have found : w.symbols.find? info.name = some info := by
    show w.find? info.name = some info
    rw [Workspace.find?, primary]
  obtain ⟨encoded, empty⟩ := of_sink_tokenChain isPrimary hs
  have point : '.' ∉ s.expected.toList := Markers.notMem_encode (by decide) (by decide) encoded
  have expects : ∀ name, s.expects name = decide (Sink.slashed name = s.expected) := by
    intro name
    rw [Sink.expects, beq_eq_decide]
  refine ⟨?_, ?_, ?_, ?_, ?_, Sink.slashed_of_notMem point, Sink.slashed_dotted point⟩
  · intro requested hr
    refine classBytes_tokenChain isPrimary found encoded ?_
    simp only [List.mem_cons, List.not_mem_nil, or_false] at hr
    rcases hr with rfl | rfl
    · exact withoutSuffix_of_notMem point
    · exact withoutSuffix_append s.expected
  · intro c bytes read hn hb
    exact name_of_applyContent_tokenChain lawful isPrimary encoded read hn hb
  · intro offers
    simpa only [expects] using Sink.content_acceptAll empty offers
  · intro offers i
    simpa only [expects] using Sink.answers_acceptAll empty offers i
  · intro offers more text kept
    rw [Sink.acceptAll_append, Sink.acceptAll_of_full kept]
    exact kept

/-- A class with a source file, under a codec that knows the class, its renamed form and what is
left of it, each by the length of its bytes. -/
theorem handoff_agrees_stripped :
    let token := "veil_Ab3xY7q_a__Zk2Pw_mask/veil_Ab3xY7q_B__Zk2Pw_mask"
    let c : ClassFile := { name := "a/B", sourceFile := some "B.java" }
    let renamed : ClassFile := { c with name := token }
    let stripped : ClassFile := { renamed with sourceFile := none }
    let codec : ClassCodec :=
      { read := fun bytes => [c, renamed, stripped][bytes.size]?.elim (.error .markersInstalled) .ok
        write := fun c =>
          if c = renamed then .ok "1".toUTF8
          else if c = stripped then .ok "22".toUTF8
          else .error .markersInstalled }
    let info : ClassInfo := .ofClass c .empty
    let w : Workspace := .addPrimary {} info
    let h : Handoff Id := ⟨w.symbols, tokenChain .sample defaultReserved codec (some {})⟩
    ∃ s, h.sink info = pure s ∧ s.expected = token ∧
      h.classBytes (token ++ ".class") = pure (some "22".toUTF8) ∧
      (∃ served, codec.read "22".toUTF8 = .ok served ∧ served.name = token) ∧
      (s.acceptAll [("a/B", "1"), (Sink.dotted token, "2"), (token, "3")]).2.content =
        some "2" := by
  intro token c renamed stripped codec info w h
  have lawful : codec.Lawful := by
    intro c' bytes written
    dsimp only [codec] at written ⊢
    split at written
    · next same =>
      rw [← Except.ok.inj written, same]
      rfl
    · split at written
      · next same =>
        rw [← Except.ok.inj written, same]
        rfl
      · exact absurd written (by simp)
  have primary : w.primary[info.name]? = some info := Std.ExtTreeMap.getElem?_insert_self
  have isPrimary : w.symbols.isPrimary info.name = true := by decide +kernel
  have encoded : Markers.sample.encode info.name true = .ok token :=
    Markers.encode_eq_ok_iff.2 ⟨by decide +kernel, by decide +kernel⟩
  have content : h.chain.applyContent w.symbols info info.bytes = pure "22".toUTF8 := by
    have outcome : Except.toOption (h.chain.applyContent w.symbols info info.bytes) =
        some "22".toUTF8 := by decide +kernel
    exact toOption_eq_some_iff.1 outcome
  have hs : h.sink info = pure ⟨token, none⟩ := by
    rw [Handoff.sink, applyName_tokenChain, (Filter.tokenOfClass_eq_ok_iff isPrimary).2 encoded]
    rfl
  obtain ⟨served, named, kept, _⟩ :=
    handoff_agrees w .sample defaultReserved codec (some {}) lawful primary hs
  refine ⟨_, hs, rfl, ?_, named c "22".toUTF8 rfl rfl content, ?_⟩
  · rw [served (token ++ ".class") (by simp)]
    show some <$> h.chain.applyContent w.symbols info info.bytes = _
    rw [content]
    rfl
  · rw [kept]
    decide +kernel

end Pseudonym
