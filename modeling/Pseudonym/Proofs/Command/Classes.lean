import Pseudonym.Proofs.Command.Loading
import Pseudonym.Proofs.Command.Running
import Pseudonym.Proofs.FileTree.Token
import Pseudonym.Proofs.Handoff

/-!
# What becomes of each class

A transformation without a mapping file gives every primary class a token and sends its content
through the filters. What comes of a class is its passage (`Handoff.passage`): the name and the
content behind the filters, or the error of one of the two. The handoff finds every primary class by
its name behind the filters (`resolves_tokenChain`), so the run can be read off the passages.

One step writes the file of a class that passes, and nothing else; as files of different classes
stay clear of each other, this carries over to a run through all classes (`exists_ends_foldlM`).
-/

namespace Pseudonym

/-! ### The passage of a class -/

namespace Handoff

/-- The name and the content of a class behind the filters. -/
def passage (h : Handoff Id) (c : ClassInfo) : Except Error (String × ByteArray) := do
  let name ← (h.chain.applyName h.symbols c.name).run.run
  let bytes ← (h.chain.applyContent h.symbols c c.bytes).run.run
  return (name, bytes)

/-- Whether a class is found by its name behind the filters. -/
def Resolves (h : Handoff Id) (c : ClassInfo) : Prop :=
  Surroundings.transformed h c = (fun (name, bytes) => (name, some bytes)) <$> h.passage c

end Handoff

section

variable {m : Markers} {reserved : List String} {codec : ClassCodec} {debug : Option StripConfig}
  {w : Workspace} {c : ClassInfo} {t : Transform}

/-- A name behind the filters is a token. -/
theorem encode_of_applyName {name token : String} (primary : w.symbols.isPrimary name = true)
    (h : ((tokenChain m reserved codec debug).applyName w.symbols name).run.run = .ok token) :
    m.encode name true = .ok token := by
  rw [applyName_tokenChain] at h
  exact (Filter.tokenOfClass_eq_ok_iff primary).1 h

/-- A primary class that gets no token carries one. -/
theorem isIntegrityViolation_of_applyName {name : String} {e : Error}
    (primary : w.symbols.isPrimary name = true)
    (h : ((tokenChain m reserved codec debug).applyName w.symbols name).run.run = .error e) :
    e.isIntegrityViolation = true := by
  rw [applyName_tokenChain] at h
  have h : Filter.tokenOfClass m w.symbols name = .error e := h
  rw [Filter.tokenOfClass, if_pos primary] at h
  split at h
  · cases h
    rfl
  · rw [Markers.encode] at h
    split at h
    · cases h
      rfl
    · cases h

/-- **The handoff finds every class by its name behind the filters.** -/
theorem resolves_tokenChain (listed : w.primary[c.name]? = some c) :
    Handoff.Resolves ⟨w.symbols, tokenChain m reserved codec debug⟩ c := by
  let h : Handoff Id := ⟨w.symbols, tokenChain m reserved codec debug⟩
  show Surroundings.transformed h c = _ <$> h.passage c
  have primary := Workspace.isPrimary_symbols listed
  cases named : (h.chain.applyName h.symbols c.name).run.run with
  | error e =>
    have named' : h.chain.applyName h.symbols c.name = throw e := named
    rw [Surroundings.transformed, Handoff.sink, Handoff.passage, named']
    rfl
  | ok token =>
    have named' : h.chain.applyName h.symbols c.name = pure token := named
    have encoded := encode_of_applyName primary named
    have served : h.classBytes token = some <$> h.chain.applyContent h.symbols c c.bytes :=
      classBytes_tokenChain primary (Workspace.find?_symbols listed) encoded
        (withoutSuffix_of_notMem (Markers.point_notMem_encode encoded))
    have sent : (h.sink c).run.run = .ok ⟨token, none⟩ := by
      rw [Handoff.sink, named']
      rfl
    rw [Surroundings.transformed, sent, Handoff.passage, named]
    simp only [bind, Except.bind]
    rw [served]
    cases content : (h.chain.applyContent h.symbols c c.bytes).run.run with
    | error e =>
      have content' : h.chain.applyContent h.symbols c c.bytes = throw e := content
      rw [content']
      rfl
    | ok bytes =>
      have content' : h.chain.applyContent h.symbols c c.bytes = pure bytes := content
      rw [content']
      rfl

end

/-! ### One step -/

open Running

section

variable {σ : Type} {system : FileSystem (StateM σ)} {directory token token' : String}
  {fits : String → Prop} {d : system.Reliable directory fits} {files files' : σ} {m : Markers}
  {bytes : ByteArray}

/-- Whether the file of a token can be written. -/
structure Writable (d : system.Reliable directory fits) (files : σ) (token : String) : Prop where
  plain : Path.IsPlain (token ++ ".json")
  fit : fits (token ++ ".json")
  new : d.find? files (token ++ ".json") = none
  free (around : String) (content : ByteArray) (leads : Path.LeadsTo around (token ++ ".json")) :
    d.find? files around ≠ some (.file content)

/-- There is one file more. -/
theorem Writable.file_iff_of_gains (writable : Writable d files token)
    (gains : d.Gains files files' (token ++ ".json") bytes) (name : String) (content : ByteArray) :
    d.find? files' name = some (.file content) ↔
      d.find? files name = some (.file content) ∨ name = token ++ ".json" ∧ bytes = content := by
  by_cases same : name = token ++ ".json"
  · subst same
    simp [gains.written, writable.new]
  · rcases gains.kept name same with kept | ⟨leads, directory⟩
    · simp [kept, same]
    · simp [directory, same, writable.free name content leads]

/-- The file of one token does not keep the file of another one from being written. -/
theorem Writable.of_gains (writable : Writable d files token)
    (gains : d.Gains files files' (token' ++ ".json") bytes) {name name' : String}
    (encoded : m.encode name true = .ok token) (encoded' : m.encode name' true = .ok token')
    (different : token ≠ token') : Writable d files' token where
  plain := writable.plain
  fit := writable.fit
  new := by
    have elsewhere : token ++ ".json" ≠ token' ++ ".json" :=
      fun same => different ((String.append_left_inj _).1 same)
    rcases gains.kept _ elsewhere with kept | ⟨leads, _⟩
    · exact kept.trans writable.new
    · exact absurd leads (Markers.not_leadsTo_of_encode encoded' token)
  free around content leads := by
    have elsewhere : around ≠ token' ++ ".json" := by
      rintro rfl
      exact Markers.not_leadsTo_of_encode encoded token' leads
    rcases gains.kept around elsewhere with kept | ⟨_, directory⟩
    · rw [kept]
      exact writable.free around content leads
    · simp [directory]

end

section

variable {σ : Type} {s : Surroundings (StateM σ)} {t : Transform} {fits : String → Prop}
  {d : s.files.Reliable t.output fits} {h : Handoff Id} {c : ClassInfo} {cs : List ClassInfo}
  {stats : TransformStats} {files files' : σ} {m : Markers}

theorem Handoff.Resolves.ne_none (resolves : h.Resolves c) (name : String) :
    Surroundings.transformed h c ≠ .ok (name, none) := by
  rw [resolves, ne_eq, map_eq_ok_iff]
  rintro ⟨passage, _, unresolved⟩
  cases unresolved

/-- A class that passes is written and counted. -/
theorem ends_transformClass_of_ok {token : String} {bytes : ByteArray} (stats : TransformStats)
    (writes : t.isDryRun = false) (resolves : h.Resolves c)
    (passed : h.passage c = .ok (token, bytes)) (sound : d.IsSound files)
    (writable : Writable d files token) :
    ∃ files', Ends (s.transformClass t h stats c) files
        (.ok { stats with written := stats.written + 1 }) files' ∧
      d.Gains files files' (token ++ ".json") bytes := by
  obtain ⟨files', wrote, gains⟩ := Surroundings.ends_writeFile d sound writable.plain writable.fit
    writable.new writable.free bytes t.isForced
  refine ⟨files', ?_, gains⟩
  have outcome : Surroundings.transformed h c = .ok (token, some bytes) := by
    rw [resolves, passed]
    rfl
  rw [Surroundings.transformClass, outcome]
  simp only [writes, Bool.false_eq_true, if_false]
  exact wrote.bind ((ends_printLine _ files').bind (ends_pure _ files'))

/-- A class that fails ends the run or is counted; nothing is written. -/
theorem ends_transformClass_of_error {e : Error} (stats : TransformStats) (resolves : h.Resolves c)
    (failed : h.passage c = .error e) (files : σ) :
    Ends (s.transformClass t h stats c) files
      (if e.isIntegrityViolation then
        .error ⟨s!"{c.name} was already transformed", some e.message⟩
      else .ok { stats with failed := stats.failed + 1 }) files := by
  have outcome : Surroundings.transformed h c = .error e := by
    rw [resolves, failed]
    rfl
  rw [Surroundings.transformClass, outcome]
  dsimp only
  split
  · exact ends_throw _ files
  · exact ends_pure _ files

/-! ### A run -/

/-- What is known of classes that are still to be transformed. -/
structure Ready (d : s.files.Reliable t.output fits) (m : Markers) (h : Handoff Id) (files : σ)
    (cs : List ClassInfo) : Prop where
  sound : d.IsSound files
  resolves : ∀ c ∈ cs, h.Resolves c
  encoded : ∀ c ∈ cs, ∀ token bytes, h.passage c = .ok (token, bytes) →
    m.encode c.name true = .ok token
  distinct : (cs.map ClassInfo.name).Nodup
  writable : ∀ c ∈ cs, ∀ token, m.encode c.name true = .ok token → Writable d files token

theorem Ready.tail (ready : Ready d m h files (c :: cs)) : Ready d m h files cs where
  sound := ready.sound
  resolves c' hc' := ready.resolves c' (List.mem_cons_of_mem _ hc')
  encoded c' hc' := ready.encoded c' (List.mem_cons_of_mem _ hc')
  distinct := (List.nodup_cons.1 ready.distinct).2
  writable c' hc' := ready.writable c' (List.mem_cons_of_mem _ hc')

/-- Writing the file of the first class leaves the others ready. -/
theorem Ready.of_gains {token : String} {bytes : ByteArray} (ready : Ready d m h files (c :: cs))
    (passed : h.passage c = .ok (token, bytes))
    (gains : d.Gains files files' (token ++ ".json") bytes) : Ready d m h files' cs := by
  have encoded := ready.encoded c List.mem_cons_self token bytes passed
  refine { ready.tail with sound := gains.sound, writable := fun c' hc' token' encoded' => ?_ }
  refine (ready.tail.writable c' hc' token' encoded').of_gains gains encoded' encoded ?_
  rintro rfl
  refine (List.nodup_cons.1 ready.distinct).1 ?_
  rw [Markers.name_eq_of_encode encoded encoded']
  exact List.mem_map_of_mem hc'

/-- What a run through classes has done if it ends well: each class is counted once, and exactly the
files of the classes that pass have been added. -/
structure Accounts (d : s.files.Reliable t.output fits) (h : Handoff Id) (cs : List ClassInfo)
    (stats stats' : TransformStats) (files files' : σ) : Prop where
  written : stats'.written = stats.written + cs.countP fun c => (h.passage c).isOk
  failed : stats'.failed = stats.failed + cs.countP fun c => !(h.passage c).isOk
  file_iff (name : String) (bytes : ByteArray) : d.find? files' name = some (.file bytes) ↔
    d.find? files name = some (.file bytes) ∨
      ∃ c ∈ cs, ∃ token, name = token ++ ".json" ∧ h.passage c = .ok (token, bytes)

/-- Whether a class ends the run. -/
def Handoff.Violates (h : Handoff Id) (c : ClassInfo) : Prop :=
  ∃ e, h.passage c = .error e ∧ e.isIntegrityViolation = true

/-- What a run through classes comes to. -/
def Settles (d : s.files.Reliable t.output fits) (h : Handoff Id) (cs : List ClassInfo)
    (stats : TransformStats) (files : σ) (result : Except Failure TransformStats) (files' : σ) :
    Prop :=
  (∃ c ∈ cs, h.Violates c) ∧ (∃ failure, result = .error failure) ∨
    (∀ c ∈ cs, ¬h.Violates c) ∧
      ∃ stats', result = .ok stats' ∧ Accounts d h cs stats stats' files files'

theorem Settles.violates_iff {result : Except Failure TransformStats}
    (settles : Settles d h cs stats files result files') :
    (∃ c ∈ cs, h.Violates c) ↔ ∃ failure, result = .error failure := by
  rcases settles with ⟨violates, failure⟩ | ⟨harmless, stats', ended, _⟩
  · exact iff_of_true violates failure
  · exact iff_of_false (by simpa using harmless) (by simp [ended])

/-- A run that ends well met no violation, and accounts for every class. -/
theorem Settles.of_ok (settles : Settles d h cs stats files (.ok stats') files') :
    (∀ c ∈ cs, ¬h.Violates c) ∧ Accounts d h cs stats stats' files files' := by
  rcases settles with ⟨_, failure, failed⟩ | ⟨harmless, _, ended, accounts⟩
  · cases failed
  · obtain rfl := Except.ok.inj ended
    exact ⟨harmless, accounts⟩

/-- A class that is counted comes before the others. -/
theorem Settles.cons {stats₁ : TransformStats} {files₁ : σ} {result : Except Failure TransformStats}
    (harmless : ¬h.Violates c)
    (first : ∀ stats', Accounts d h cs stats₁ stats' files₁ files' →
      Accounts d h (c :: cs) stats stats' files files')
    (settles : Settles d h cs stats₁ files₁ result files') :
    Settles d h (c :: cs) stats files result files' := by
  rcases settles with ⟨⟨c', hc', violates⟩, failure⟩ | ⟨harmless', stats', ended, accounts⟩
  · exact Or.inl ⟨⟨c', List.mem_cons_of_mem _ hc', violates⟩, failure⟩
  · exact Or.inr ⟨List.forall_mem_cons.2 ⟨harmless, harmless'⟩, stats', ended, first _ accounts⟩

theorem Accounts.cons_of_error {stats' : TransformStats} {e : Error}
    (failed : h.passage c = .error e)
    (accounts : Accounts d h cs { stats with failed := stats.failed + 1 } stats' files files') :
    Accounts d h (c :: cs) stats stats' files files' where
  written := by
    rw [accounts.written, List.countP_cons, failed]
    rfl
  failed := by
    rw [accounts.failed, List.countP_cons, failed]
    simp only [Except.isOk, Except.toBool, Bool.not_false, if_true]
    omega
  file_iff name bytes := by simp [accounts.file_iff, failed]

theorem Accounts.cons_of_ok {stats' : TransformStats} {files₁ : σ} {token : String}
    {bytes : ByteArray} (passed : h.passage c = .ok (token, bytes))
    (writable : Writable d files token) (gains : d.Gains files files₁ (token ++ ".json") bytes)
    (accounts : Accounts d h cs { stats with written := stats.written + 1 } stats' files₁ files') :
    Accounts d h (c :: cs) stats stats' files files' where
  written := by
    rw [accounts.written, List.countP_cons, passed]
    simp only [Except.isOk, Except.toBool, if_true]
    omega
  failed := by
    rw [accounts.failed, List.countP_cons, passed]
    rfl
  file_iff name content := by
    rw [accounts.file_iff, writable.file_iff_of_gains gains, or_assoc]
    have own : (∃ token', name = token' ++ ".json" ∧ h.passage c = .ok (token', content)) ↔
        name = token ++ ".json" ∧ bytes = content := by
      rw [passed]
      constructor
      · rintro ⟨token', named, same⟩
        obtain ⟨⟩ := same
        exact ⟨named, rfl⟩
      · rintro ⟨named, rfl⟩
        exact ⟨token, named, rfl⟩
    simp only [List.mem_cons, exists_eq_or_imp, own]

/-- **A run ends well unless a class violates the integrity**, and then it accounts for every
class. -/
theorem exists_ends_foldlM (stats : TransformStats) (writes : t.isDryRun = false)
    (ready : Ready d m h files cs) :
    ∃ result files', Ends (cs.foldlM (s.transformClass t h) stats) files result files' ∧
      Settles d h cs stats files result files' := by
  induction cs generalizing stats files with
  | nil =>
    exact ⟨_, files, ends_pure stats files, Or.inr ⟨by simp, stats, rfl, rfl, rfl, by simp⟩⟩
  | cons c cs ih =>
    have resolves := ready.resolves c List.mem_cons_self
    cases passed : h.passage c with
    | error e =>
      have step := ends_transformClass_of_error (s := s) (t := t) stats resolves passed files
      cases violation : e.isIntegrityViolation with
      | true =>
        rw [violation, if_pos rfl] at step
        exact ⟨_, files, step.bind_error,
          Or.inl ⟨⟨c, List.mem_cons_self, e, passed, violation⟩, _, rfl⟩⟩
      | false =>
        rw [violation, if_neg Bool.false_ne_true] at step
        obtain ⟨result, files', run, settles⟩ := ih _ ready.tail
        have harmless : ¬h.Violates c := by simp [Handoff.Violates, passed, violation]
        exact ⟨result, files', step.bind run, settles.cons harmless fun _ => .cons_of_error passed⟩
    | ok passage =>
      obtain ⟨token, bytes⟩ := passage
      have encoded := ready.encoded c List.mem_cons_self token bytes passed
      have writable := ready.writable c List.mem_cons_self token encoded
      obtain ⟨files₁, step, gains⟩ := ends_transformClass_of_ok stats writes resolves passed
        ready.sound writable
      obtain ⟨result, files', run, settles⟩ := ih _ (ready.of_gains passed gains)
      have harmless : ¬h.Violates c := by simp [Handoff.Violates, passed]
      exact ⟨result, files', step.bind run,
        settles.cons harmless fun _ => .cons_of_ok passed writable gains⟩

end

end Pseudonym
