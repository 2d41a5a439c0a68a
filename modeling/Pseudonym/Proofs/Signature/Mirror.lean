import Pseudonym.Proofs.Signature

/-!
# States under new names

A reader whose state holds other classes goes the same way. The image of a state has the same part
and the same mode, and in both a new name for each class,

    ⟨part, enclosing, closed n⟩  ↦  ⟨part, enclosing.map f, closed (f n)⟩.

Outside of names no step looks at a class, so that a step from the image of a state does what the
step from the state does: it fails with it, or leads to the image of where that leads
(`mirrors_step`). With the identity in the place of `f` this says that offsets have no part in a step
that succeeds (`step_at`).
-/

namespace Pseudonym.Signature

open Text

/-! ### Images of states -/

variable {f : String → String}

/-- A mode with a new name for each class in it. What was read of a name stays. -/
def Mode.map (f : String → String) : Mode → Mode
  | .segment outer reversed => .segment (outer.map f) reversed
  | .closed name => .closed (f name)
  | mode => mode

/-- A state with a new name for each class in it. -/
def State.map (f : String → String) (s : State) : State :=
  ⟨s.part, s.enclosing.map f, s.mode.map f⟩

theorem map_endType (s : State) : s.endType.map f = (s.map f).endType := by
  obtain ⟨part, enclosing, mode⟩ := s
  cases enclosing with
  | nil => cases part <;> rfl
  | cons name others => rfl

theorem faultAtEnd_map (s : State) : (s.map f).faultAtEnd = s.faultAtEnd := by
  obtain ⟨part, enclosing, mode⟩ := s
  cases mode with
  | next => cases enclosing <;> cases part <;> rfl
  | _ => rfl

theorem around_map (s : State) : (s.map f).around = s.around.map f := by
  obtain ⟨part, enclosing, mode⟩ := s
  cases mode with
  | segment outer reversed => cases outer <;> rfl
  | _ => rfl

theorem State.map_id (s : State) : s.map id = s := by
  obtain ⟨part, enclosing, mode⟩ := s
  cases mode with
  | segment outer reversed => cases outer <;> simp [State.map, Mode.map]
  | _ => simp [State.map, Mode.map]

/-- Where a step leads from a state, the other step leads from its image. What a fault says about
places may differ. -/
def ImageOf (f : String → String) (here there : Step) : Prop :=
  ∀ next pieces, here = .ok (next, pieces) → there = .ok (next.map f, pieces)

/-- Two steps that do the same: both fail, or both lead on, the second one to the image of where the
first one leads. -/
inductive Mirrors (f : String → String) : Step → Step → Prop
  | error (here there : DescriptorFault) : Mirrors f (.error here) (.error there)
  | ok (next : State) (pieces : List Piece) :
    Mirrors f (.ok (next, pieces)) (.ok (next.map f, pieces))

variable {s : State} {c : Char} {place : Nat} {name : String}

theorem Mirrors.imageOf {here there : Step} (h : Mirrors f here there) : ImageOf f here there := by
  intro next pieces stepped
  cases h with
  | error fault fault' => cases stepped
  | ok next' pieces' =>
    obtain ⟨rfl, rfl⟩ := Prod.mk.inj (Except.ok.inj stepped)
    rfl

theorem mirrors_keep {t : State} (h : t = s.map f) : Mirrors f (keep s c) (keep t c) := by
  subst h
  exact .ok _ _

theorem mirrors_stepReference (s : State) (c : Char) (place place' : Nat) :
    Mirrors f (stepReference s c place) (stepReference (s.map f) c place') := by
  unfold stepReference
  split
  · exact mirrors_keep rfl
  · exact mirrors_keep rfl
  · exact mirrors_keep rfl
  · exact .error _ _

theorem mirrors_stepType (s : State) (c : Char) (place place' : Nat) :
    Mirrors f (stepType s c place) (stepType (s.map f) c place') := by
  unfold stepType
  split
  · exact mirrors_keep (map_endType s).symm
  · exact mirrors_stepReference s c place place'

theorem mirrors_stepTypeParameters (s : State) (c : Char) :
    Mirrors f (stepTypeParameters s c) (stepTypeParameters (s.map f) c) := by
  unfold stepTypeParameters
  split
  · exact mirrors_keep rfl
  · exact .error _ _
  · exact mirrors_keep rfl

theorem mirrors_stepBounds (s : State) (c : Char) :
    Mirrors f (stepBounds s c) (stepBounds (s.map f) c) := by
  unfold stepBounds
  split
  · exact mirrors_keep rfl
  · exact mirrors_stepTypeParameters s c

theorem mirrors_stepNext (s : State) (c : Char) (place place' : Nat) :
    Mirrors f (stepNext s c place) (stepNext (s.map f) c place') := by
  obtain ⟨part, enclosing, mode⟩ := s
  cases enclosing with
  | cons name others =>
    simp only [stepNext, State.map, List.map_cons]
    split
    · exact mirrors_keep rfl
    · exact mirrors_keep rfl
    · exact mirrors_keep rfl
    · exact mirrors_keep rfl
    · exact mirrors_stepReference _ c place place'
  | nil =>
    cases part with
    | bounds => exact mirrors_stepBounds _ c
    | parameters =>
      simp only [stepNext, State.map, List.map_nil]
      split
      · exact mirrors_keep rfl
      · exact mirrors_stepType _ c place place'
    | result | thrown =>
      simp only [stepNext, State.map, List.map_nil]
      split
      · exact mirrors_keep rfl
      · exact .error _ _
    | supertypes => exact mirrors_stepReference _ c place place'

theorem mirrors_stepClosed (s : State) (name : String) (c : Char) (place place' : Nat) :
    Mirrors f (stepClosed s name c place) (stepClosed (s.map f) (f name) c place') := by
  unfold stepClosed
  split
  · exact mirrors_keep rfl
  · rw [← map_endType]
    exact .ok _ _
  · exact .error _ _

/-- **Outside of names no step looks at a class.** -/
theorem mirrors_step (hs : ∀ outer reversed, s.mode ≠ .segment outer reversed) (c : Char)
    (place place' : Nat) : Mirrors f (step s c place) (step (s.map f) c place') := by
  obtain ⟨part, enclosing, mode⟩ := s
  cases mode with
  | start =>
    unfold step
    dsimp only [State.map, Mode.map]
    split
    · exact mirrors_keep rfl
    · exact mirrors_keep rfl
    · exact mirrors_stepReference _ c place place'
  | body =>
    unfold step
    dsimp only [State.map, Mode.map]
    split
    · exact mirrors_keep rfl
    · exact mirrors_stepReference _ c place place'
  | typeParameters => exact mirrors_stepTypeParameters _ c
  | typeParameter =>
    unfold step
    dsimp only [State.map, Mode.map]
    split
    · exact mirrors_keep rfl
    · exact mirrors_keep rfl
  | bound =>
    unfold step
    dsimp only [State.map, Mode.map]
    split
    · exact mirrors_stepReference _ _ place place'
    · exact mirrors_stepReference _ _ place place'
    · exact mirrors_stepReference _ _ place place'
    · exact mirrors_stepBounds _ c
  | next => exact mirrors_stepNext _ c place place'
  | type => exact mirrors_stepType _ c place place'
  | reference => exact mirrors_stepReference _ c place place'
  | «variable» named =>
    unfold step
    dsimp only [State.map, Mode.map]
    split
    · split
      · exact mirrors_keep (map_endType ⟨part, enclosing, .variable named⟩).symm
      · exact .error _ _
    · exact mirrors_keep rfl
  | segment outer reversed => exact absurd rfl (hs outer reversed)
  | closed name => exact mirrors_stepClosed _ name c place place'

theorem imageOf_step (hs : ∀ outer reversed, s.mode ≠ .segment outer reversed) (c : Char)
    (place place' : Nat) : ImageOf f (step s c place) (step (s.map f) c place') :=
  (mirrors_step hs c place place').imageOf

/-- Outside of names a step that succeeds does the same at every offset. -/
theorem step_at {next : State} {pieces : List Piece}
    (outside : ∀ outer reversed, s.mode ≠ .segment outer reversed)
    (h : step s c place = .ok (next, pieces)) (place' : Nat) :
    step s c place' = .ok (next, pieces) := by
  have image := imageOf_step (f := id) outside c place place' next pieces h
  rwa [State.map_id, State.map_id] at image

theorem outside_map (outside : ∀ outer reversed, s.mode ≠ .segment outer reversed)
    (outer : Option String) (reversed : List Char) :
    (s.map f).mode ≠ .segment outer reversed := by
  obtain ⟨part, enclosing, mode⟩ := s
  cases mode with
  | segment outer reversed => exact absurd rfl (outside outer reversed)
  | _ => simp [State.map, Mode.map]

end Pseudonym.Signature
