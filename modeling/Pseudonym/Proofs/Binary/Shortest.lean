import Pseudonym.Binary.Shortest
import Pseudonym.Proofs.Binary.Format

/-!
# Where shortest decimals lie

The shortest decimal of a pattern lies between the midpoints to the neighbours (`shortest_between`),
whichever power of ten it was found at. In grains,

    grains (bits - 1) + grains bits ≤ 2 * decimal ≤ grains bits + grains (bits + 1).

So it is positive, and a finite number is written as a decimal that lies in the range of its format.
-/

namespace Pseudonym.Binary.Format

variable (f : Format) {bits : Nat}

theorem grains_mono {a b : Nat} (h : a ≤ b) : f.grains a ≤ f.grains b :=
  Nat.mul_le_mul_right _ (f.units_mono h)

theorem grains_pos (h : 0 < bits) : 0 < f.grains bits :=
  Nat.mul_pos (f.units_pos h) (Nat.pow_pos (by decide))

/-- Whether a number of grains lies between the midpoints to the neighbours of a pattern. -/
def Between (bits grains : Nat) : Prop :=
  f.grains (bits - 1) + f.grains bits ≤ 2 * grains ∧
    2 * grains ≤ f.grains bits + f.grains (bits + 1)

variable {f}

theorem Between.of_readsBack {grains : Nat} (h : f.readsBack bits grains = true) :
    f.Between bits grains := by
  unfold readsBack at h
  dsimp only at h
  split at h
  · simpa [Between] using h
  · simp only [Bool.and_eq_true, decide_eq_true_eq] at h
    exact ⟨Nat.le_of_lt h.1, Nat.le_of_lt h.2⟩

theorem Between.of_nearest? {level digits : Nat} (h : f.nearest? bits level = some digits) :
    f.Between bits (digits * 10 ^ level) := by
  unfold nearest? at h
  dsimp only at h
  split at h
  · next below above =>
    split at h
    · obtain rfl := Option.some.inj h
      exact .of_readsBack below
    · split at h
      · obtain rfl := Option.some.inj h
        exact .of_readsBack above
      · obtain rfl := Option.some.inj h
        rcases Nat.mod_two_eq_zero_or_one (f.grains bits / Nat.pow 10 level) with even | odd
        · rw [even]
          exact .of_readsBack below
        · rw [odd]
          exact .of_readsBack above
  · next below _ =>
    obtain rfl := Option.some.inj h
    exact .of_readsBack below
  · next _ above =>
    obtain rfl := Option.some.inj h
    exact .of_readsBack above
  · cases h

theorem between_coarsest (bits level : Nat) :
    f.Between bits ((f.coarsest bits level).1 * 10 ^ (f.coarsest bits level).2) := by
  induction level with
  | zero =>
    have below := f.grains_mono (Nat.sub_le bits 1)
    have above := f.grains_mono (Nat.le_add_right bits 1)
    simp only [coarsest, Between, Nat.pow_zero, Nat.mul_one]
    omega
  | succ level ih =>
    unfold coarsest
    split
    · next found => exact .of_nearest? found
    · exact ih

/-- **A shortest decimal lies between the midpoints to the neighbours.** -/
theorem shortest_between (f : Format) (bits : Nat) :
    ∃ digits level : Nat, f.shortest bits = ⟨digits, level - f.depth⟩ ∧
      f.Between bits (digits * 10 ^ level) :=
  ⟨_, _, rfl, between_coarsest bits ((f.grains bits).log2 / 3 + 1)⟩

end Pseudonym.Binary.Format
