import Pseudonym.Proofs.Descriptor.Renaming
import Pseudonym.Proofs.Signature.Automaton

/-!
# No new name decides whether a signature is accepted

Two things can end the renaming of a signature: a fault in the text, or a name that the renaming
does not answer. The first depends on the text alone, although what is written for a nested class
depends on the new name of the class around it. So there are a list of names and an optional fault,

    names s,  fault? s,

which are the same for all renamings, and every renaming asks for the names in order, and then fails
with the fault if there is one (`rename_eq_askAll`). What a renaming answers decides only how far
along the list it comes (`Independent`).
-/

namespace Pseudonym

open Descriptor Text Traced

namespace Signature

/-- The classes that a signature names, in order, up to its first fault. -/
def names (signature : String) : List String := pieceNames (scan signature.toList).pieces

/-- Why a signature is malformed, if it is. -/
def fault? (signature : String) : Option Error :=
  (scan signature.toList).fault.map (.malformedDescriptor signature)

/-- What a renaming that was given all names does at the end of a signature. -/
def ended {ω : Type} (text : String) : Option Error → Traced ω String
  | some e => fail e
  | none => return text

/-- **A renaming asks for the names, and then the text decides.** -/
theorem rename_eq_askAll {ω : Type} {f : String → Traced ω String} {g : String → String}
    (hg : Agrees f g) (s : String) :
    rename f s = askAll f (names s) >>= fun _ =>
      ended (String.ofList (renamedPieces g [] (scan s.toList).pieces)) (fault? s) := by
  have asks := asks_renamePieces hg (scan s.toList).pieces []
  rw [rename, asks, bind_assoc, fault?]
  refine bind_congr fun _ => ?_
  rw [pure_bind]
  cases (scan s.toList).fault with
  | none => rfl
  | some fault => rfl

/-- Renaming in a signature asks for the given names, in order, and its fault is the given one,
whatever the new names are. -/
structure Independent (s : String) (names : List String) (fault : Option Error) : Prop where
  /-- A renaming that cannot fail. -/
  infallible : ∀ f : String → String,
    (rename (logged fun name => .ok (f name)) s).log = names ∧
      ∀ e, (rename (logged fun name => .ok (f name)) s).outcome = .error e ↔ fault = some e
  /-- Names that stay leave the text as it is. -/
  keeps : fault = none → (rename (logged .ok) s).outcome = .ok s
  /-- The first name that is not answered comes before the fault. -/
  first_failure : ∀ answer before name after e, names = before ++ name :: after →
    (∀ n ∈ before, ∃ new, answer n = .ok new) → answer name = .error e →
      (rename (logged answer) s).outcome = .error e ∧
        (rename (logged answer) s).log = before ++ [name]
  /-- All names that come before the fault are answered. -/
  no_failure : ∀ answer, (∀ name ∈ names, ∃ new, answer name = .ok new) →
    (rename (logged answer) s).log = names ∧
      ∀ e, (rename (logged answer) s).outcome = .error e ↔ fault = some e
  /-- Writing while reading makes no difference. -/
  in_one_pass : ∀ (ω : Type) (f : String → Traced ω String), Descent.rename f s = rename f s

section

variable {s : String} {answer : String → Except Error String}

theorem rename_of_failure {before after : List String} {name : String} {e : Error}
    (split : names s = before ++ name :: after) (answered : ∀ n ∈ before, ∃ new, answer n = .ok new)
    (fails : answer name = .error e) :
    (rename (logged answer) s).outcome = .error e ∧
      (rename (logged answer) s).log = before ++ [name] := by
  rw [rename_eq_askAll (agrees_answers _), split]
  exact askAll_logged_bind_of_error answered fails after _

theorem rename_of_answered (answered : ∀ name ∈ names s, ∃ new, answer name = .ok new) :
    (rename (logged answer) s).log = names s ∧
      ∀ e, (rename (logged answer) s).outcome = .error e ↔ fault? s = some e := by
  rw [rename_eq_askAll (agrees_answers _)]
  obtain ⟨out, seen⟩ := askAll_logged_bind answered
    (ended (String.ofList (renamedPieces (answers (logged answer)) [] (scan s.toList).pieces))
      (fault? s))
  rw [out, seen]
  cases fault? s with
  | none => simp [ended]
  | some e => simp [ended, fail]

end

end Signature

open Signature

/-- **Whether a signature is accepted does not depend on the new names**, nor does the fault if it
is not, nor the names that a renaming is asked for. -/
theorem signature_acceptance_is_independent (s : String) :
    Independent s (names s) (Signature.fault? s) where
  infallible f := rename_of_answered fun name _ => ⟨f name, rfl⟩
  keeps sound := by
    have sound : (scan s.toList).fault = none := by simpa [Signature.fault?] using sound
    have stays : Agrees (logged .ok) id := agrees_logged id
    rw [rename_eq_askAll stays, Signature.fault?, sound,
      renamedPieces_scan (g := id) sound fun _ _ => rfl, String.ofList_toList]
    exact (askAll_logged_bind (fun name _ => ⟨name, rfl⟩) _).1
  first_failure _ _ _ _ _ split answered fails := rename_of_failure split answered fails
  no_failure _ answered := rename_of_answered answered
  in_one_pass _ f := Descent.rename_eq f s

-- The names in front of a fault are asked for, those behind it are not.
example : names "La<Lb;>.C<Ld.;Le;>;" = ["a", "b", "a$C", "d"] ∧
    Signature.fault? "La<Lb;>.C<Ld.;Le;>;" =
      some (.malformedDescriptor "La<Lb;>.C<Ld.;Le;>;" (.emptyName 13)) := by
  decide

end Pseudonym
