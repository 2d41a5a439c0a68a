import Mathlib.Data.List.Basic
import Pseudonym.Filter
import Pseudonym.Proofs.Text

/-!
# A chain is its filters one after the other

Filters may have state, alone or together: a filter that counts or logs its calls is an example. So
what a chain does is not only what it returns, but which filters it calls, on what, and in which
state. A `Relay` is such a run of calls,

    v  —k₁→  v₁  —k₂→  …  —kₙ→  w,

where each filter is called on what the one before it left behind. A chain goes forward by a relay
through its filters in order, up to the first one that fails (`Relays`), and backward by a relay
through them in the reverse order. If each filter takes back what it did, so does the chain: the
way back undoes the way forth from its end.

Back in a text, a filter that hands back the text as it got it answers `none`, one that hands back
another text answers with it. So does the chain, and it answers `none` only if all its filters do.
-/

namespace Pseudonym

section

variable {κ α β σ : Type}

/-- A value handed from one to the next. Each is called on the value that the one before it left, in
the state that it left, and answers; `take` says what an answer makes of the value. -/
inductive Relay (call : κ → α → StateM σ (Except Error β)) (take : α → β → α) :
    List κ → α × σ → List β → α × σ → Prop where
  | done (v : α × σ) : Relay call take [] v [] v
  | next {k : κ} {ks : List κ} {v w : α × σ} {answer : β} {s : σ} {answers : List β}
    (called : (call k v.1).run v.2 = (.ok answer, s))
    (rest : Relay call take ks (take v.1 answer, s) answers w) :
    Relay call take (k :: ks) v (answer :: answers) w

/-- What an answer leaves if it replaces the value. -/
def latest (_ : α) (answer : α) : α := answer

/-- How a run of calls ends: all of them answered, or the first one that failed was the last one
that was made. -/
def Relays (call : κ → α → StateM σ (Except Error α)) (ks : List κ) (v : α × σ) :
    Except Error α × σ → Prop
  | (.ok a, s) => ∃ answers, Relay call latest ks v answers (a, s)
  | (.error e, s) => ∃ before k after answers w, ks = before ++ k :: after ∧
      Relay call latest before v answers w ∧ (call k w.1).run w.2 = (.error e, s)

/-! ### Folds as relays -/

variable {call : κ → α → StateM σ (Except Error β)} {take : α → β → α} {ks : List κ}
  {v w : α × σ}

theorem Relay.nil_iff {answers : List β} :
    Relay call take [] v answers w ↔ answers = [] ∧ w = v := by
  constructor
  · rintro ⟨⟩
    exact ⟨rfl, rfl⟩
  · rintro ⟨rfl, rfl⟩
    exact .done _

theorem Relay.cons_iff {k : κ} {answers : List β} :
    Relay call take (k :: ks) v answers w ↔ ∃ answer s others, answers = answer :: others ∧
      (call k v.1).run v.2 = (.ok answer, s) ∧
        Relay call take ks (take v.1 answer, s) others w := by
  constructor
  · rintro ⟨⟩
    next called rest => exact ⟨_, _, _, rfl, called, rest⟩
  · rintro ⟨answer, s, others, rfl, called, rest⟩
    exact .next called rest

section

variable {x : ExceptT Error (StateM σ) α} {s s' : σ}

theorem run_bind_of_ok {a : α} (h : x.run.run s = (.ok a, s'))
    (k : α → ExceptT Error (StateM σ) β) : (x >>= k).run.run s = (k a).run.run s' := by
  rw [ExceptT.run_bind, StateT.run_bind, h]
  rfl

theorem run_bind_of_error {e : Error} (h : x.run.run s = (.error e, s'))
    (k : α → ExceptT Error (StateM σ) β) : (x >>= k).run.run s = (.error e, s') := by
  rw [ExceptT.run_bind, StateT.run_bind, h]
  rfl

end

/-- A run of calls ends with its first call, or that call answers and the others end the run. -/
theorem relays_cons_iff {call : κ → α → StateM σ (Except Error α)} {k : κ}
    {r : Except Error α × σ} :
    Relays call (k :: ks) v r ↔
      (∃ e s, (call k v.1).run v.2 = (.error e, s) ∧ r = (.error e, s)) ∨
        ∃ a s, (call k v.1).run v.2 = (.ok a, s) ∧ Relays call ks (a, s) r := by
  obtain ⟨out, last⟩ := r
  constructor
  · intro relays
    cases out with
    | ok out =>
      obtain ⟨answers, relay⟩ := relays
      obtain ⟨a, s, others, rfl, called, rest⟩ := Relay.cons_iff.1 relay
      exact Or.inr ⟨a, s, called, others, rest⟩
    | error e =>
      obtain ⟨before, failing, after, answers, w, split, relay, failed⟩ := relays
      cases before with
      | nil =>
        obtain ⟨rfl, rfl⟩ := List.cons.inj split
        obtain ⟨rfl, rfl⟩ := Relay.nil_iff.1 relay
        exact Or.inl ⟨e, last, failed, rfl⟩
      | cons first before =>
        obtain ⟨rfl, rfl⟩ := List.cons.inj split
        obtain ⟨a, s, others, rfl, called, rest⟩ := Relay.cons_iff.1 relay
        exact Or.inr ⟨a, s, called, before, failing, after, others, w, rfl, rest, failed⟩
  · rintro (⟨e, s, failed, same⟩ | ⟨a, s, called, relays⟩)
    · obtain ⟨rfl, rfl⟩ := Prod.mk.inj same
      exact ⟨[], k, ks, [], v, rfl, .done v, failed⟩
    · cases out with
      | ok out =>
        obtain ⟨answers, relay⟩ := relays
        exact ⟨a :: answers, .next called relay⟩
      | error e =>
        obtain ⟨before, failing, after, answers, w, rfl, relay, failed⟩ := relays
        exact ⟨k :: before, failing, after, a :: answers, w, rfl, .next called relay, failed⟩

section

variable {call : κ → α → StateM σ (Except Error α)} {k : κ} {s : σ} {r : Except Error α × σ}

theorem relays_cons_of_ok {a : α} (h : (call k v.1).run v.2 = (.ok a, s)) :
    Relays call (k :: ks) v r ↔ Relays call ks (a, s) r := by
  rw [relays_cons_iff, h]
  constructor
  · rintro (⟨e, s', same, -⟩ | ⟨b, s', same, relays⟩)
    · cases (Prod.mk.inj same).1
    · obtain ⟨answer, rfl⟩ := Prod.mk.inj same
      obtain rfl := Except.ok.inj answer
      exact relays
  · exact fun relays => Or.inr ⟨a, s, rfl, relays⟩

theorem relays_cons_of_error {e : Error} (h : (call k v.1).run v.2 = (.error e, s)) :
    Relays call (k :: ks) v r ↔ (.error e, s) = r := by
  rw [relays_cons_iff, h]
  constructor
  · rintro (⟨e', s', same, rfl⟩ | ⟨a, s', same, -⟩)
    · exact same
    · cases (Prod.mk.inj same).1
  · exact fun ends => Or.inl ⟨e, s, rfl, ends.symm⟩

end

theorem relays_nil {call : κ → α → StateM σ (Except Error α)} {r : Except Error α × σ} :
    Relays call [] v r ↔ (.ok v.1, v.2) = r := by
  obtain ⟨out, last⟩ := r
  cases out with
  | ok out =>
    constructor
    · rintro ⟨answers, relay⟩
      obtain ⟨-, rfl⟩ := Relay.nil_iff.1 relay
      rfl
    · intro same
      obtain ⟨value, rfl⟩ := Prod.mk.inj same
      obtain rfl := Except.ok.inj value
      exact ⟨[], .done v⟩
  | error e =>
    constructor
    · rintro ⟨before, failing, after, answers, w, split, -, -⟩
      simp at split
    · intro same
      cases (Prod.mk.inj same).1

/-- **A fold that may fail is a run of calls up to the first failure.** -/
theorem run_foldlM_iff (step : α → κ → ExceptT Error (StateM σ) α) {r : Except Error α × σ} :
    (ks.foldlM step v.1).run.run v.2 = r ↔ Relays (fun k a => (step a k).run) ks v r := by
  induction ks generalizing v with
  | nil => exact relays_nil.symm
  | cons k ks ih =>
    rw [List.foldlM_cons]
    rcases called : (step v.1 k).run.run v.2 with ⟨e | a, s⟩
    · rw [run_bind_of_error called, relays_cons_of_error called]
    · rw [run_bind_of_ok called, relays_cons_of_ok called, ← ih]

/-- A call that cannot fail. -/
def answering (call : κ → α → StateM σ β) (k : κ) (a : α) : StateM σ (Except Error β) :=
  .ok <$> call k a

theorem run_answering_iff {call : κ → α → StateM σ β} {k : κ} {answer : β} {s : σ} :
    (answering call k v.1).run v.2 = (.ok answer, s) ↔ (call k v.1).run v.2 = (answer, s) := by
  rw [answering, StateT.run_map]
  rcases (call k v.1).run v.2 with ⟨b, s'⟩
  show ((Except.ok b, s') : Except Error β × σ) = _ ↔ ((b, s') : β × σ) = _
  simp

/-- **A fold that cannot fail is a relay.** It may keep more than the value that the next one is
called on: `put` is what it makes of an answer. -/
theorem run_foldlM_iff_relay {γ : Type} (value : γ → α) (take : α → β → α) (put : γ → β → γ)
    (hput : ∀ g answer, value (put g answer) = take (value g) answer) (call : κ → α → StateM σ β)
    {g g' : γ} {s s' : σ} :
    (ks.foldlM (fun g k => put g <$> call k (value g)) g).run s = (g', s') ↔
      ∃ answers, Relay (answering call) take ks (value g, s) answers (value g', s') ∧
        g' = answers.foldl put g := by
  induction ks generalizing g s with
  | nil =>
    simp only [Relay.nil_iff]
    constructor
    · intro same
      obtain ⟨rfl, rfl⟩ := Prod.mk.inj same
      exact ⟨[], ⟨rfl, rfl⟩, rfl⟩
    · rintro ⟨_, ⟨rfl, same⟩, rfl⟩
      rw [(Prod.mk.inj same).2]
      rfl
  | cons k ks ih =>
    rw [List.foldlM_cons, StateT.run_bind, StateT.run_map]
    rcases called : (call k (value g)).run s with ⟨answer, t⟩
    refine Iff.trans (ih (g := put g answer) (s := t)) ?_
    rw [hput]
    have answered : (answering call k (value g)).run s = (.ok answer, t) :=
      (run_answering_iff (v := (value g, s))).2 called
    constructor
    · rintro ⟨answers, relay, rfl⟩
      exact ⟨answer :: answers, .next answered relay, rfl⟩
    · rintro ⟨answers, relay, rfl⟩
      obtain ⟨b, t', others, rfl, again, rest⟩ := Relay.cons_iff.1 relay
      rw [answered] at again
      obtain ⟨same, rfl⟩ := Prod.mk.inj again
      obtain rfl := Except.ok.inj same
      exact ⟨others, rest, rfl⟩

/-- Behind a relay stands what the answers made of the value, one after the other. -/
theorem Relay.fst_eq {answers : List β} (h : Relay call take ks v answers w) :
    w.1 = answers.foldl take v.1 := by
  induction h with
  | done v => rfl
  | next _ _ ih => exact ih

end

/-! ### Chains -/

namespace FilterChain

variable {σ : Type} {chain : FilterChain (StateM σ)} {symbols : SymbolSource}

theorem run_applyName_iff {name : String} {s : σ} {r : Except Error String × σ} :
    (chain.applyName symbols name).run.run s = r ↔
      Relays (fun (f : Filter (StateM σ)) name => (f.filterName symbols name).run) chain
        (name, s) r :=
  run_foldlM_iff (v := (name, s)) fun name (f : Filter (StateM σ)) => f.filterName symbols name

theorem run_applyContent_iff {info : ClassInfo} {bytes : ByteArray} {s : σ}
    {r : Except Error ByteArray × σ} :
    (chain.applyContent symbols info bytes).run.run s = r ↔
      Relays (fun (f : Filter (StateM σ)) bytes => (f.filterContent symbols info bytes).run) chain
        (bytes, s) r :=
  run_foldlM_iff (v := (bytes, s)) fun bytes (f : Filter (StateM σ)) =>
    f.filterContent symbols info bytes

theorem run_unapplyName_iff {name name' : String} {s s' : σ} :
    (chain.unapplyName symbols name).run s = (name', s') ↔
      ∃ names, Relay (answering fun (f : Filter (StateM σ)) name => f.unfilterName symbols name)
        latest chain.reverse (name, s) names (name', s') := by
  let call (f : Filter (StateM σ)) (name : String) : StateM σ String := f.unfilterName symbols name
  have replaced (name : String) (f : Filter (StateM σ)) :
      latest name <$> call f name = f.unfilterName symbols name := id_map _
  have folds : (chain.reverse.foldlM (fun name f => latest name <$> call f name) name).run s =
      (name', s') ↔ _ := run_foldlM_iff_relay id latest latest (fun _ _ => rfl) call
  simp only [replaced] at folds
  refine folds.trans (exists_congr fun names => and_iff_left_of_imp ?_)
  exact Relay.fst_eq

/-- What stands for a text once a filter has answered. -/
def found (text : String) (answer : Option String) : String := answer.getD text

theorem foldl_or_eq_none_iff {answers : List (Option String)} {result : Option String} :
    answers.foldl (fun result answer => answer.or result) result = none ↔
      result = none ∧ ∀ answer ∈ answers, answer = none := by
  induction answers generalizing result with
  | nil => simp
  | cons answer answers ih =>
    rw [List.foldl_cons, ih, Option.or_eq_none_iff, List.forall_mem_cons, and_assoc,
      and_left_comm]

theorem getD_foldl_or (text : String) (answers : List (Option String)) (result : Option String) :
    (answers.foldl (fun result answer => answer.or result) result).getD text =
      answers.foldl found (result.getD text) := by
  induction answers generalizing result with
  | nil => rfl
  | cons answer answers ih =>
    rw [List.foldl_cons, ih, List.foldl_cons]
    cases answer <;> rfl

theorem eq_of_getD_eq {α : Type} {x y : Option α} {a : α} (h : x.getD a = y.getD a)
    (both : x = none ↔ y = none) : x = y := by
  cases x with
  | none => exact (both.1 rfl).symm
  | some b =>
    cases y with
    | none => exact both.2 rfl
    | some c => exact congrArg some h

theorem run_unapplyText_iff {text : String} {result : Option String} {s s' : σ} :
    (chain.unapplyText symbols text).run s = (result, s') ↔
      ∃ answers, Relay (answering fun (f : Filter (StateM σ)) text => f.unfilterText symbols text)
        found chain.reverse (text, s) answers (result.getD text, s') ∧
          (result = none ↔ ∀ answer ∈ answers, answer = none) := by
  let call (f : Filter (StateM σ)) (text : String) : StateM σ (Option String) :=
    f.unfilterText symbols text
  have kept (result : Option String) (f : Filter (StateM σ)) :
      (·.or result) <$> call f (result.getD text) =
        f.unfilterText symbols (result.getD text) >>= fun next => pure (next.or result) :=
    map_eq_pure_bind ..
  have folds : (chain.reverse.foldlM
      (fun result f => (·.or result) <$> call f (result.getD text)) none).run s =
        (result, s') ↔ _ :=
    run_foldlM_iff_relay (·.getD text) found (fun result answer => answer.or result)
      (fun _ answer => by cases answer <;> rfl) call
  simp only [kept] at folds
  refine folds.trans (exists_congr fun answers => and_congr_right fun relay => ?_)
  -- The result is fixed by the last text and by whether any answer was given at all.
  have value : result.getD text =
      (answers.foldl (fun result answer => answer.or result) none).getD text :=
    relay.fst_eq.trans (getD_foldl_or text answers none).symm
  have silent : answers.foldl (fun result answer => answer.or result) none = none ↔
      ∀ answer ∈ answers, answer = none :=
    foldl_or_eq_none_iff.trans (and_iff_right rfl)
  rw [← silent]
  exact ⟨fun same => by rw [same], eq_of_getD_eq value⟩

theorem unapplyName_cons (f : Filter (StateM σ)) (name : String) :
    unapplyName (f :: chain) symbols name =
      chain.unapplyName symbols name >>= fun name => f.unfilterName symbols name := by
  rw [unapplyName, List.reverse_cons, List.foldlM_append]
  simp only [List.foldlM_cons, List.foldlM_nil, bind_pure]
  rfl

/-- **If each filter takes back what it did, so does the chain.** -/
theorem unapplyName_of_applyName
    (h : ∀ f ∈ chain, ∀ name s name' s', (f.filterName symbols name).run.run s = (.ok name', s') →
      ∀ t, ((f.unfilterName symbols name').run t).1 = name)
    {name name' : String} {s s' : σ}
    (applied : (chain.applyName symbols name).run.run s = (.ok name', s')) (t : σ) :
    ((chain.unapplyName symbols name').run t).1 = name := by
  obtain ⟨names, relay⟩ := run_applyName_iff.1 applied
  clear applied
  induction chain generalizing name s names with
  | nil =>
    obtain ⟨-, same⟩ := Relay.nil_iff.1 relay
    exact (Prod.mk.inj same).1
  | cons f chain ih =>
    obtain ⟨next, s₁, others, rfl, called, rest⟩ := Relay.cons_iff.1 relay
    rw [List.forall_mem_cons] at h
    have back := ih h.2 others rest
    rw [unapplyName_cons, StateT.run_bind]
    rcases behind : (unapplyName chain symbols name').run t with ⟨found, t'⟩
    rw [behind] at back
    obtain rfl : found = next := back
    exact h.1 name s found s₁ called t'

/-- **A chain is its filters one after the other**, whatever they are and whatever state they share.
Forward it calls them in order, each on what the one before it returned, and the first failure ends
the run; content comes with the same class for all of them. Backward it calls them in the reverse
order, and finds nothing in a text exactly if none of them does. Where each filter takes back what
it did to a name, the chain does. -/
theorem composes {σ : Type} (chain : FilterChain (StateM σ)) (symbols : SymbolSource) :
    (∀ name s r, (chain.applyName symbols name).run.run s = r ↔
      Relays (fun f name => (f.filterName symbols name).run) chain (name, s) r) ∧
    (∀ name s name' s', (chain.unapplyName symbols name).run s = (name', s') ↔
      ∃ names, Relay (answering fun f name => f.unfilterName symbols name) latest chain.reverse
        (name, s) names (name', s')) ∧
    ((∀ f ∈ chain, ∀ name s name' s',
        (f.filterName symbols name).run.run s = (.ok name', s') →
          ∀ t, ((f.unfilterName symbols name').run t).1 = name) →
      ∀ name s name' s', (chain.applyName symbols name).run.run s = (.ok name', s') →
        ∀ t, ((chain.unapplyName symbols name').run t).1 = name) ∧
    (∀ info bytes s r, (chain.applyContent symbols info bytes).run.run s = r ↔
      Relays (fun f bytes => (f.filterContent symbols info bytes).run) chain (bytes, s) r) ∧
    (∀ text s result s', (chain.unapplyText symbols text).run s = (result, s') ↔
      ∃ answers, Relay (answering fun f text => f.unfilterText symbols text) found chain.reverse
        (text, s) answers (result.getD text, s') ∧
          (result = none ↔ ∀ answer ∈ answers, answer = none)) := by
  refine ⟨fun _ _ _ => run_applyName_iff, fun _ _ _ _ => run_unapplyName_iff, ?_,
    fun _ _ _ _ => run_applyContent_iff, fun _ _ _ _ => run_unapplyText_iff⟩
  exact fun takesBack _ _ _ _ => unapplyName_of_applyName takesBack

/-- A filter that appends a text to names, takes it off again and logs its calls. -/
def suffixing (suffix : String) : Filter (StateM (List String)) where
  id := suffix
  filterName _ name := ExceptT.lift do
    modify (· ++ ["filter " ++ suffix])
    return name ++ suffix
  unfilterName _ name := do
    modify (· ++ ["unfilter " ++ suffix])
    return match suffix.toList.isSuffixOf? name.toList with
      | some stem => String.ofList stem
      | none => name

/-- Two filters that append a text each. The chain calls them in order and goes back from the end.
-/
theorem composes_suffixing :
    let chain := [suffixing "A", suffixing "B"]
    let symbols : SymbolSource := Workspace.symbols {}
    (∀ f ∈ chain, ∀ name s name' s',
        (f.filterName symbols name).run.run s = (.ok name', s') →
          ∀ t, ((f.unfilterName symbols name').run t).1 = name) ∧
      (applyName chain symbols "X").run.run [] = (.ok "XAB", ["filter A", "filter B"]) ∧
      (unapplyName chain symbols "XAB").run [] = ("X", ["unfilter B", "unfilter A"]) ∧
      ∀ t, ((unapplyName chain symbols "XAB").run t).1 = "X" := by
  intro chain symbols
  have takesBack : ∀ f ∈ chain, ∀ name s name' s',
      (f.filterName symbols name).run.run s = (.ok name', s') →
        ∀ t, ((f.unfilterName symbols name').run t).1 = name := by
    have each (suffix : String) : ∀ name s name' s',
        ((suffixing suffix).filterName symbols name).run.run s = (.ok name', s') →
          ∀ t, (((suffixing suffix).unfilterName symbols name').run t).1 = name := by
      intro name s name' s' applied t
      obtain rfl : name ++ suffix = name' := Except.ok.inj (Prod.mk.inj applied).1
      show (match suffix.toList.isSuffixOf? (name ++ suffix).toList with
        | some stem => String.ofList stem
        | none => name ++ suffix) = name
      rw [String.toList_append, List.isSuffixOf?_eq_some_iff_append_eq.2 rfl]
      exact String.ofList_toList
    simpa [chain] using ⟨each "A", each "B"⟩
  have applied : (applyName chain symbols "X").run.run [] =
      (.ok "XAB", ["filter A", "filter B"]) := by rfl
  have unapplied : ((unapplyName chain symbols "XAB").run []).run =
      ("X", ["unfilter B", "unfilter A"]) := by decide +kernel
  obtain ⟨-, -, back, -, -⟩ := composes chain symbols
  exact ⟨takesBack, applied, unapplied, back takesBack "X" [] "XAB" _ applied⟩

end FilterChain

end Pseudonym
