import Pseudonym.Document.Read
import Pseudonym.Proofs.Document.Decoder
import Pseudonym.Proofs.Json.Floating

/-!
# Constants as documents

Handles and constants are read again as they are written, and are written with no more levels than
they were read with. A constant is read with a bound on how deep it nests; both facts are proved by
induction on the bound.

Floating point constants are the exception. `floating` collects them. If they are finite they are
written as numbers, and numbers are read, but a number need not be read as the pattern that it was
written for: `settled` is what stands for a constant once it was read again. Without floating point
constants that is the constant itself. An infinite one is written as `null`, which is no number.
-/

namespace Pseudonym

/-! ### Floating point constants -/

mutual

/-- The floating point constants in a constant. -/
def Constant.floating : Constant → List Constant
  | .float bits => [.float bits]
  | .double bits => [.double bits]
  | .dynamic _ _ _ arguments => Constant.floatingList arguments
  | _ => []

/-- The floating point constants in several constants. -/
def Constant.floatingList : List Constant → List Constant
  | [] => []
  | c :: cs => c.floating ++ Constant.floatingList cs

end

theorem Constant.floatingList_eq_flatMap (cs : List Constant) :
    floatingList cs = cs.flatMap floating := by
  induction cs with
  | nil => rfl
  | cons c cs ih => rw [floatingList, ih, List.flatMap_cons]

theorem Constant.mem_floating_of_mem_arguments {name descriptor : String} {bootstrap : Handle}
    {arguments : List Constant} {c k : Constant} (hc : c ∈ arguments) (hk : k ∈ c.floating) :
    k ∈ (dynamic name descriptor bootstrap arguments).floating := by
  rw [floating, floatingList_eq_flatMap]
  exact List.mem_flatMap.2 ⟨c, hc, hk⟩

/-- Whether a constant, if it is a floating point number, is finite. -/
def Constant.IsFinite : Constant → Prop
  | .float bits => Binary.single.IsFinite bits.toNat
  | .double bits => Binary.double.IsFinite bits.toNat
  | _ => True

/-- Whether some constants are finite. -/
def AllFinite (cs : List Constant) : Prop := ∀ c ∈ cs, c.IsFinite

theorem allFinite_nil : AllFinite [] := fun _ hc => nomatch hc

theorem AllFinite.sublist {cs ds : List Constant} (h : AllFinite ds) (sub : ∀ c ∈ cs, c ∈ ds) :
    AllFinite cs :=
  fun c hc => h c (sub c hc)

theorem allFinite_append_iff {cs ds : List Constant} :
    AllFinite (cs ++ ds) ↔ AllFinite cs ∧ AllFinite ds := by
  simp [AllFinite, or_imp, forall_and]

theorem allFinite_flatMap_iff {α : Type} {floating : α → List Constant} {xs : List α} :
    AllFinite (xs.flatMap floating) ↔ ∀ x ∈ xs, AllFinite (floating x) := by
  simp only [AllFinite, List.mem_flatMap]
  exact ⟨fun h x hx c hc => h c ⟨x, hx, hc⟩, fun h c ⟨x, hx, hc⟩ => h x hx c hc⟩

/-- What a `float` is read as once it was written. -/
def settledSingle (bits : UInt32) : UInt32 :=
  ((Json.Number.ofPattern? Json.singleStyle bits.toNat).bind Json.Number.toSingle?).getD bits

/-- What a `double` is read as once it was written. -/
def settledDouble (bits : UInt64) : UInt64 :=
  ((Json.Number.ofPattern? Json.doubleStyle bits.toNat).bind Json.Number.toDouble?).getD bits

mutual

/-- What stands for a constant once it was written and read. -/
def Constant.settled : Constant → Constant
  | .int value => .int value
  | .long value => .long value
  | .float bits => .float (settledSingle bits)
  | .double bits => .double (settledDouble bits)
  | .string text => .string text
  | .type descriptor => .type descriptor
  | .methodType descriptor => .methodType descriptor
  | .handle h => .handle h
  | .dynamic name descriptor bootstrap arguments =>
    .dynamic name descriptor bootstrap (Constant.settledList arguments)

/-- What stands for several constants once they were written and read. -/
def Constant.settledList : List Constant → List Constant
  | [] => []
  | c :: cs => c.settled :: Constant.settledList cs

end

theorem Constant.settledList_eq_map (cs : List Constant) : settledList cs = cs.map settled := by
  induction cs with
  | nil => rfl
  | cons c cs ih => rw [settledList, ih, List.map_cons]

mutual

/-- Without floating point constants a constant comes back. -/
theorem Constant.settled_of_plain : ∀ {c : Constant}, c.floating = [] → c.settled = c
  | .int _, _ | .long _, _ | .string _, _ | .type _, _ | .methodType _, _ | .handle _, _ => rfl
  | .dynamic _ _ _ _, h => by rw [Constant.settled, Constant.settledList_of_plain h]

theorem Constant.settledList_of_plain :
    ∀ {cs : List Constant}, floatingList cs = [] → settledList cs = cs
  | [], _ => rfl
  | _ :: _, h =>
    have ⟨first, others⟩ := List.append_eq_nil_iff.1 h
    by rw [Constant.settledList, Constant.settled_of_plain first,
      Constant.settledList_of_plain others]

end

namespace Document

open Json Decoder

/-! ### Handles -/

@[simp] theorem handleKind_handleKindName (kind : HandleKind) (p : Position) :
    handleKind p (.text (handleKindName kind)) = some kind := by
  cases kind <;> rfl

theorem isWritten_ofHandle (h : Handle) : (ofHandle h).IsWritten := by
  simp [ofHandle]

theorem rereads_handle (h : Handle) : Rereads handle ofHandle h :=
  RereadsAs.record rfl (by simp) fun q _ => by simp [Members.get, List.lookup_cons]

theorem staysSound_handle (h : Handle) : StaysSound 0 [] handle ofHandle h :=
  StaysSound.record rfl fun r _ _ _ => by simp

/-! ### Floating point constants -/

@[simp] theorem isWritten_ofSingle (bits : Nat) : (ofPattern singleStyle bits).IsWritten := by
  unfold ofPattern
  cases written : Number.ofPattern? singleStyle bits with
  | none => exact Value.isWritten_null
  | some n => exact (Number.readable_single.of_ofPattern? written).1

@[simp] theorem isWritten_ofDouble (bits : Nat) : (ofPattern doubleStyle bits).IsWritten := by
  unfold ofPattern
  cases written : Number.ofPattern? doubleStyle bits with
  | none => exact Value.isWritten_null
  | some n => exact (Number.readable_double.of_ofPattern? written).1

@[simp] theorem isSound_ofSingle (levels bits : Nat) :
    isSound levels (ofPattern singleStyle bits) = true := by
  unfold ofPattern
  cases written : Number.ofPattern? singleStyle bits with
  | none => rfl
  | some n =>
    obtain ⟨r, read⟩ := Number.readable_single.exists_toDouble? written
    exact Option.isSome_iff_exists.2 ⟨r, read⟩

@[simp] theorem isSound_ofDouble (levels bits : Nat) :
    isSound levels (ofPattern doubleStyle bits) = true := by
  unfold ofPattern
  cases written : Number.ofPattern? doubleStyle bits with
  | none => rfl
  | some n =>
    obtain ⟨r, read⟩ := Number.readable_double.exists_toDouble? written
    exact Option.isSome_iff_exists.2 ⟨r, read⟩

theorem single_ofPattern {bits : UInt32} (h : Binary.single.IsFinite bits.toNat) (p : Position) :
    single p (ofPattern singleStyle bits.toNat) = some (settledSingle bits) := by
  obtain ⟨n, written⟩ := Number.exists_of_isFinite (s := singleStyle) h
  obtain ⟨r, read, -⟩ := Number.exists_toSingle? written
  rw [ofPattern, settledSingle, written]
  show n.toSingle? = some (n.toSingle?.getD bits)
  rw [read]
  rfl

theorem double_ofPattern {bits : UInt64} (h : Binary.double.IsFinite bits.toNat) (p : Position) :
    double p (ofPattern doubleStyle bits.toNat) = some (settledDouble bits) := by
  obtain ⟨n, written⟩ := Number.exists_of_isFinite (s := doubleStyle) h
  obtain ⟨r, read⟩ := Number.readable_double.exists_toDouble? written
  rw [ofPattern, settledDouble, written]
  show n.toDouble? = some (n.toDouble?.getD bits)
  rw [read]
  rfl

/-! ### Constants -/

theorem ofConstants_eq_map (cs : List Constant) : ofConstants cs = cs.map ofConstant := by
  induction cs with
  | nil => rfl
  | cons c cs ih => rw [ofConstants, ih, List.map_cons]

theorem isWritten_ofConstant (c : Constant) : (ofConstant c).IsWritten := by
  cases c with
  | handle h => simpa [ofConstant] using isWritten_ofHandle h
  | dynamic name descriptor bootstrap arguments =>
    have each : ∀ c ∈ arguments, (ofConstant c).IsWritten := fun c _ => isWritten_ofConstant c
    simpa [ofConstant, ofConstants_eq_map, isWritten_ofHandle] using each
  | _ => simp [ofConstant]

/-- A dynamic constant is read again if its arguments are. -/
theorem constantBelow_ofDynamic {height : Nat} {name descriptor : String} {bootstrap : Handle}
    {arguments : List Constant} {p : Position}
    (reads : ∀ c ∈ arguments, ∀ q : Position, q.levels < p.levels →
      isSound q.levels (ofConstant c) = true → constantBelow height q (ofConstant c) = some c.settled)
    (sound : isSound p.levels
      (ofConstant (.dynamic name descriptor bootstrap arguments)) = true) :
    constantBelow (height + 1) p (ofConstant (.dynamic name descriptor bootstrap arguments)) =
      some (Constant.dynamic name descriptor bootstrap arguments).settled := by
  obtain ⟨q, entered, levels, sound⟩ := exists_enter_of_tag sound
  obtain ⟨r, inside, levels', sound⟩ := exists_enter_of_record sound
  rw [ofConstants_eq_map] at sound
  simp only [List.forall_mem_cons] at sound
  obtain ⟨-, -, bootstrap_sound, arguments_sound, -⟩ := sound
  obtain ⟨items, inner, levels'', sound⟩ := exists_enter_of_array arguments_sound
  have each : ∀ c ∈ arguments, constantBelow height items (ofConstant c) = some c.settled :=
    fun c hc => reads c hc items (by omega) (sound _ (List.mem_map_of_mem hc))
  rw [constantBelow, ofConstant, variant_tag entered, ofConstants_eq_map]
  show record _ _ _ q _ = _
  rw [record_record inside (by simp)]
  simp [Members.get, List.lookup_cons, rereads_handle bootstrap r bootstrap_sound,
    list_array inner each, Constant.settled, Constant.settledList_eq_map]

/-- The bound on nesting does no harm: it is the number of levels, and every constant inside a
constant takes one. -/
theorem constantBelow_ofConstant {height : Nat} {c : Constant} (h : AllFinite c.floating)
    {p : Position} (enough : p.levels ≤ height) (sound : isSound p.levels (ofConstant c) = true) :
    constantBelow height p (ofConstant c) = some c.settled := by
  induction height generalizing c p with
  | zero =>
    -- A variant takes a level, and there is none.
    cases c with
    | _ =>
      obtain ⟨q, -, levels, -⟩ := exists_enter_of_tag sound
      omega
  | succ height ih =>
    cases c with
    | int value =>
      obtain ⟨q, entered, -⟩ := exists_enter_of_tag sound
      rw [constantBelow, ofConstant, variant_tag entered]
      simp [Decoder.map, Constant.settled]
    | long value =>
      obtain ⟨q, entered, -⟩ := exists_enter_of_tag sound
      rw [constantBelow, ofConstant, variant_tag entered]
      simp [Decoder.map, Constant.settled]
    | float bits =>
      obtain ⟨q, entered, -⟩ := exists_enter_of_tag sound
      rw [constantBelow, ofConstant, variant_tag entered]
      simp [Decoder.map, Constant.settled, single_ofPattern (h _ List.mem_cons_self)]
    | double bits =>
      obtain ⟨q, entered, -⟩ := exists_enter_of_tag sound
      rw [constantBelow, ofConstant, variant_tag entered]
      simp [Decoder.map, Constant.settled, double_ofPattern (h _ List.mem_cons_self)]
    | string value | type value | methodType value =>
      obtain ⟨q, entered, -⟩ := exists_enter_of_tag sound
      rw [constantBelow, ofConstant, variant_tag entered]
      rfl
    | handle value =>
      obtain ⟨q, entered, -, sound⟩ := exists_enter_of_tag sound
      rw [constantBelow, ofConstant, variant_tag entered]
      simp [Decoder.map, Constant.settled, rereads_handle value q sound]
    | dynamic name descriptor bootstrap arguments =>
      exact constantBelow_ofDynamic (fun c hc r below sound =>
        ih (h.sublist fun _ => Constant.mem_floating_of_mem_arguments hc) (by omega) sound) sound

theorem rereadsAs_constant {c : Constant} (h : AllFinite c.floating) :
    RereadsAs constant ofConstant c c.settled :=
  fun _ => constantBelow_ofConstant h (Nat.le_refl _)

theorem isSound_of_constantBelow {height : Nat} {c : Constant} {p : Position} {v : Value}
    (read : constantBelow height p v = some c) :
    isSound p.levels (ofConstant c) = true := by
  induction height generalizing c p v with
  | zero => cases read
  | succ height ih =>
    obtain ⟨q, name, content, levels, read⟩ := exists_of_variant read
    rw [levels]
    split at read
    case h_8 =>
      obtain ⟨value, found, rfl⟩ := Option.map_eq_some_iff.1 read
      refine isSound_tag_iff.2 ⟨_, rfl, ?_⟩
      exact staysSound_handle value q content found (Nat.zero_le _) (by simp)
    -- A dynamic constant, whose arguments nest less deep.
    case h_9 =>
      obtain ⟨r, levels', read⟩ := exists_of_record read
      obtain ⟨name, -, read⟩ := Option.bind_eq_some_iff.1 read
      obtain ⟨descriptor, -, read⟩ := Option.bind_eq_some_iff.1 read
      obtain ⟨bootstrap, bootstrap_read, read⟩ := Option.bind_eq_some_iff.1 read
      obtain ⟨arguments, arguments_read, read⟩ := Option.bind_eq_some_iff.1 read
      obtain rfl := Option.some.inj read
      have bootstrap_sound := (staysSound_handle bootstrap).plainGet bootstrap_read
      have arguments_sound := (StaysSound.plainList fun c hc _ _ read _ _ =>
        ih read).plainGet arguments_read
      rw [ofConstant, ofConstants_eq_map]
      refine isSound_tag_iff.2 ⟨_, rfl, isSound_record_iff.2 ⟨_, levels', ?_⟩⟩
      simp [bootstrap_sound, arguments_sound]
    case h_10 => cases read
    all_goals
      obtain ⟨value, -, rfl⟩ := Option.map_eq_some_iff.1 read
      simp [ofConstant, isSound_tag_iff]

theorem staysSound_constant (c : Constant) : StaysSound 0 [] constant ofConstant c :=
  fun _ _ read _ _ => isSound_of_constantBelow read

end Document

end Pseudonym
