import Pseudonym.Error

/-!
# Computations that leave a trace

Renaming may fail half way, and what it looked at before it failed stays visible. A `Traced`
computation therefore has two parts: the log of what happened, in order, and the outcome. A failure
keeps the log that led to it and nothing is logged after it. Forgetting the log
(`Traced.outcome`) turns traced steps into plain `Except` steps: `outcome_pure`, `outcome_bind`.
-/

namespace Pseudonym

/-- A log of entries and an outcome. -/
structure Traced (ω α : Type) where
  /-- What happened, in order. -/
  log : List ω
  /-- The result, or the failure that ended the computation. -/
  outcome : Except Error α

namespace Traced

variable {ω α β : Type}

@[ext] theorem ext {x y : Traced ω α} (hl : x.log = y.log) (ho : x.outcome = y.outcome) : x = y := by
  cases x
  cases y
  simp_all

/-- Runs a computation and then what it leads to; a failure ends both. -/
protected def bind (x : Traced ω α) (f : α → Traced ω β) : Traced ω β :=
  match x.outcome with
  | .ok a => ⟨x.log ++ (f a).log, (f a).outcome⟩
  | .error e => ⟨x.log, .error e⟩

/-- Mapping over a computation changes what it returns and leaves its log alone. -/
instance : Monad (Traced ω) where
  pure a := ⟨[], .ok a⟩
  bind := Traced.bind
  map f x := ⟨x.log, x.outcome.map f⟩

/-- An outcome that leaves no trace. -/
def lift (outcome : Except Error α) : Traced ω α := ⟨[], outcome⟩

/-- A failure that leaves no trace. -/
def fail (e : Error) : Traced ω α := ⟨[], .error e⟩

/-- Adds one entry to the log. -/
def note (entry : ω) : Traced ω Unit := ⟨[entry], .ok ()⟩

@[simp] theorem log_pure (a : α) : (pure a : Traced ω α).log = [] := rfl

@[simp] theorem outcome_pure (a : α) : (pure a : Traced ω α).outcome = .ok a := rfl

@[simp] theorem outcome_bind (x : Traced ω α) (f : α → Traced ω β) :
    (x >>= f).outcome = x.outcome >>= fun a => (f a).outcome := by
  rcases x with ⟨l, e | a⟩ <;> rfl

theorem log_bind_ok {x : Traced ω α} {a : α} (h : x.outcome = .ok a) (f : α → Traced ω β) :
    (x >>= f).log = x.log ++ (f a).log := by
  show (Traced.bind x f).log = _
  simp [Traced.bind, h]

theorem log_bind_error {x : Traced ω α} {e : Error} (h : x.outcome = .error e)
    (f : α → Traced ω β) : (x >>= f).log = x.log := by
  show (Traced.bind x f).log = _
  simp [Traced.bind, h]

@[simp] theorem log_map (f : α → β) (x : Traced ω α) : (f <$> x).log = x.log := rfl

@[simp] theorem outcome_map (f : α → β) (x : Traced ω α) :
    (f <$> x).outcome = f <$> x.outcome := rfl

instance : LawfulMonad (Traced ω) := LawfulMonad.mk' (Traced ω)
  (fun x => by rcases x with ⟨l, e | a⟩ <;> rfl)
  (fun a f => by simp [bind, pure, Traced.bind])
  (fun x f g => by
    rcases x with ⟨l, e | a⟩
    · rfl
    · show Traced.bind (Traced.bind ⟨l, .ok a⟩ f) g =
        Traced.bind ⟨l, .ok a⟩ fun b => Traced.bind (f b) g
      cases hf : (f a).outcome <;> simp [Traced.bind, hf])
  (fun _ _ => rfl) (fun _ _ => rfl) (fun _ _ => rfl)
  (fun f x => by
    rcases x with ⟨l, e | a⟩
    · rfl
    · ext : 1
      · exact List.append_nil l
      · rfl)

end Traced

end Pseudonym
