import Pseudonym.Traced

/-!
# Asking one question after the other

A renaming is a function `f` that answers questions: what a class mentions, or what a descriptor
names. `Asks f qs a x` says that the computation `x` does nothing but ask the questions `qs`, in
order, and that its result is `a` once all of them were answered:

    x = askAll f qs >>= fun _ => pure a.

The equation covers the log and the first failure as well. It is proved for large computations from
their steps (`Asks.bind`, `Asks.mapM`); what makes it possible is that no answer decides what is
asked next. The result is spelled by a function `g` that knows the answers in advance (`Agrees f
g`).
-/

namespace Pseudonym

variable {κ ω α β : Type}

/-- Asks questions one after the other. -/
def askAll (f : κ → Traced ω String) : List κ → Traced ω Unit
  | [] => pure ()
  | q :: qs => f q >>= fun _ => askAll f qs

/-- Whatever is answered at all is answered as `g` says. -/
def Agrees (f : κ → Traced ω String) (g : κ → String) : Prop :=
  ∀ q text, (f q).outcome = .ok text → g q = text

/-- A computation that asks questions in order, and whose result is `a` once all of them were
answered. -/
def Asks (f : κ → Traced ω String) (qs : List κ) (a : α) (x : Traced ω α) : Prop :=
  x = askAll f qs >>= fun _ => pure a

variable (f : κ → Traced ω String)

theorem askAll_append (qs rs : List κ) :
    askAll f (qs ++ rs) = askAll f qs >>= fun _ => askAll f rs := by
  induction qs with
  | nil => simp [askAll]
  | cons q qs ih => simp [askAll, ih]

variable {f}

/-- All questions together are answered exactly if each of them is. -/
theorem outcome_askAll {g : κ → String} (hg : Agrees f g) {qs : List κ} :
    (askAll f qs).outcome = .ok () ↔ ∀ q ∈ qs, (f q).outcome = .ok (g q) := by
  induction qs with
  | nil => simp [askAll]
  | cons q qs ih =>
    rw [askAll, Traced.outcome_bind, List.forall_mem_cons, ← ih]
    cases h : (f q).outcome with
    | ok text => simp [bind, Except.bind, hg q text h]
    | error e => simp [bind, Except.bind]

/-- Where all questions are answered, what is logged is what each of them logs, in order. -/
theorem log_askAll {qs : List κ} (h : ∀ q ∈ qs, ∃ text, (f q).outcome = .ok text) :
    (askAll f qs).log = qs.flatMap (f · |>.log) := by
  induction qs with
  | nil => rfl
  | cons q qs ih =>
    rw [List.forall_mem_cons] at h
    obtain ⟨text, answered⟩ := h.1
    rw [askAll, Traced.log_bind_ok answered, ih h.2, List.flatMap_cons]

/-- Where a question fails, all together fail by this question or by one before it. -/
theorem exists_error_of_askAll {q : κ} {e : Error} (h : (f q).outcome = .error e)
    (before after : List κ) :
    ∃ q' ∈ before ++ [q], ∃ e', (f q').outcome = .error e' ∧
      (askAll f (before ++ q :: after)).outcome = .error e' := by
  induction before with
  | nil =>
    refine ⟨q, by simp, e, h, ?_⟩
    rw [List.nil_append, askAll, Traced.outcome_bind, h]
    rfl
  | cons p before ih =>
    cases first : (f p).outcome with
    | error e' =>
      refine ⟨p, by simp, e', first, ?_⟩
      rw [List.cons_append, askAll, Traced.outcome_bind, first]
      rfl
    | ok text =>
      obtain ⟨q', hq, e', failed, all⟩ := ih
      refine ⟨q', List.mem_cons_of_mem p hq, e', failed, ?_⟩
      rw [List.cons_append, askAll, Traced.outcome_bind, first]
      exact all

/-- A failure of all questions together is the failure of one of them. -/
theorem exists_of_askAll_error {qs : List κ} {e : Error} (h : (askAll f qs).outcome = .error e) :
    ∃ q ∈ qs, (f q).outcome = .error e := by
  induction qs with
  | nil => cases h
  | cons q qs ih =>
    rw [askAll, Traced.outcome_bind] at h
    cases first : (f q).outcome with
    | error e' =>
      rw [first] at h
      obtain rfl := Except.error.inj h
      exact ⟨q, List.mem_cons_self, first⟩
    | ok text =>
      rw [first] at h
      obtain ⟨q', hq, failed⟩ := ih h
      exact ⟨q', List.mem_cons_of_mem q hq, failed⟩

namespace Asks

variable (f) in
theorem result (a : α) : Asks f [] a (pure a) := by simp [Asks, askAll]

/-- What is asked, and the result, say what a computation does. -/
theorem unique {qs : List κ} {a : α} {x y : Traced ω α} (hx : Asks f qs a x) (hy : Asks f qs a y) :
    x = y :=
  Eq.trans hx (Eq.symm hy)

/-- The answer to the question just asked is the one known in advance. -/
theorem ask {g : κ → String} (hg : Agrees f g) (q : κ) : Asks f [q] (g q) (f q) := by
  have same : f q = f q >>= fun _ => pure (g q) := by
    ext : 1
    · simp
    · rw [Traced.outcome_bind]
      cases h : (f q).outcome with
      | ok text => rw [hg q text h]; rfl
      | error e => rfl
  simpa [Asks, askAll] using same

theorem bind {qs rs : List κ} {a : α} {b : β} {x : Traced ω α} {k : α → Traced ω β}
    (hx : Asks f qs a x) (hk : Asks f rs b (k a)) : Asks f (qs ++ rs) b (x >>= k) := by
  unfold Asks at *
  rw [hx, askAll_append, bind_assoc, bind_assoc]
  simp only [pure_bind, hk]

theorem map {qs : List κ} {a : α} {x : Traced ω α} (hx : Asks f qs a x) (k : α → β) :
    Asks f qs (k a) (k <$> x) := by
  have step : Asks f (qs ++ []) (k a) (x >>= fun a => pure (k a)) := hx.bind (result f (k a))
  rwa [List.append_nil, bind_pure_comp] at step

theorem mapM {qs : α → List κ} {r : α → β} {walk : α → Traced ω β} {xs : List α}
    (h : ∀ x ∈ xs, Asks f (qs x) (r x) (walk x)) :
    Asks f (xs.flatMap qs) (xs.map r) (xs.mapM walk) := by
  induction xs with
  | nil => exact result f []
  | cons x xs ih =>
    have rest := ih fun y hy => h y (List.mem_cons_of_mem x hy)
    rw [List.mapM_cons, List.flatMap_cons, ← List.append_nil (xs.flatMap qs)]
    exact (h x List.mem_cons_self).bind (rest.bind (result f _))

theorem optionMapM {qs : α → List κ} {r : α → β} {walk : α → Traced ω β} {o : Option α}
    (h : ∀ x ∈ o, Asks f (qs x) (r x) (walk x)) :
    Asks f (o.toList.flatMap qs) (o.map r) (o.mapM walk) := by
  cases o with
  | none => exact result f none
  | some x =>
    rw [Option.toList_some, List.flatMap_singleton]
    exact (h x rfl).map some

/-- Asking for every member of a list. -/
theorem each {g : κ → String} (hg : Agrees f g) (q : α → κ) (xs : List α) :
    Asks f (xs.map q) (xs.map (g <| q ·)) (xs.mapM (f <| q ·)) := by
  rw [List.map_eq_flatMap (f := q)]
  exact mapM fun x _ => ask hg (q x)

/-- Asking for what may be missing. -/
theorem optional {g : κ → String} (hg : Agrees f g) (q : α → κ) (o : Option α) :
    Asks f (o.toList.map q) (o.map (g <| q ·)) (o.mapM (f <| q ·)) := by
  rw [List.map_eq_flatMap]
  exact optionMapM fun x _ => ask hg (q x)

/-- **A computation that only asks succeeds exactly if each of its questions is answered.** -/
theorem outcome {g : κ → String} (hg : Agrees f g) {qs : List κ} {a b : α} {x : Traced ω α}
    (h : Asks f qs a x) :
    x.outcome = .ok b ↔ (∀ q ∈ qs, (f q).outcome = .ok (g q)) ∧ b = a := by
  rw [h, Traced.outcome_bind, ← outcome_askAll hg]
  cases (askAll f qs).outcome with
  | ok => simp [Bind.bind, Except.bind, eq_comm]
  | error e => simp [Bind.bind, Except.bind]

theorem outcome_eq_error_iff {qs : List κ} {a : α} {x : Traced ω α} {e : Error}
    (hx : Asks f qs a x) : x.outcome = .error e ↔ (askAll f qs).outcome = .error e := by
  rw [hx, Traced.outcome_bind]
  cases (askAll f qs).outcome with
  | ok => simp [Bind.bind, Except.bind]
  | error e' => simp [Bind.bind, Except.bind]

theorem log {qs : List κ} {a : α} {x : Traced ω α} (hx : Asks f qs a x)
    (h : ∀ q ∈ qs, ∃ text, (f q).outcome = .ok text) : x.log = qs.flatMap (f · |>.log) := by
  rw [hx, ← log_askAll h]
  cases all : (askAll f qs).outcome with
  | ok done => rw [Traced.log_bind_ok all, Traced.log_pure, List.append_nil]
  | error e => rw [Traced.log_bind_error all]

end Asks

end Pseudonym
