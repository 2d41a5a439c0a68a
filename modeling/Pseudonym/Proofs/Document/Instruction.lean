import Pseudonym.Proofs.Document.Constant

/-!
# Instructions as documents

Instructions are read again as they are written, and are written with no more levels than they were
read with. Only four kinds hold values that take levels of their own: switches, call sites, loads of
a constant and frames. What those were read from is read off `instructionOfKind` by one lemma each;
all other kinds hold numbers, texts and flags.
-/

namespace Pseudonym

/-- The floating point constants in an instruction. -/
def Instruction.floating : Instruction → List Constant
  | .invokeDynamic _ _ _ arguments => arguments.flatMap Constant.floating
  | .ldc value => value.floating
  | _ => []

/-- What stands for an instruction once it was written and read. -/
def Instruction.settled : Instruction → Instruction
  | .invokeDynamic name descriptor bootstrap arguments =>
    .invokeDynamic name descriptor bootstrap (arguments.map Constant.settled)
  | .ldc value => .ldc value.settled
  | i => i

theorem Instruction.settled_of_plain {i : Instruction} (h : i.floating = []) : i.settled = i := by
  cases i with
  | invokeDynamic name descriptor bootstrap arguments =>
    have same : ∀ c ∈ arguments, c.settled = c := fun c hc =>
      Constant.settled_of_plain (List.flatMap_eq_nil_iff.1 h c hc)
    rw [settled, List.map_congr_left same, List.map_id']
  | ldc value => rw [settled, Constant.settled_of_plain h]
  | _ => rfl

namespace Document

open Json Decoder

/-! ### Frames -/

theorem isWritten_ofFrameValue (v : FrameValue) : (ofFrameValue v).IsWritten := by
  cases v <;> simp [ofFrameValue]

theorem rereads_frameValue (v : FrameValue) : Rereads frameValue ofFrameValue v := by
  intro p sound
  cases v with
  | uninitialized label =>
    obtain ⟨q, entered, -⟩ := exists_enter_of_tag sound
    show ((p.enter?.bind fun q => none).or (variant _ p (ofFrameValue _))) = _
    rw [entered, ofFrameValue, variant_tag entered]
    simp [Decoder.map]
  | object name =>
    obtain ⟨q, entered, -⟩ := exists_enter_of_tag sound
    show ((p.enter?.bind fun q => none).or (variant _ p (ofFrameValue _))) = _
    rw [entered, ofFrameValue, variant_tag entered]
    rfl
  | _ => rfl

/-- A frame value with content was read from a variant. -/
theorem exists_level_of_frameValue {p : Position} {w : Value} {v : FrameValue}
    (read : frameValue p w = some v) (content : ∀ name, ofFrameValue v ≠ .text name) :
    ∃ q : Position, p.levels = q.levels + 1 := by
  rcases Option.or_eq_some_iff.1 read with read | ⟨-, read⟩
  · obtain ⟨name, read⟩ := exists_of_unit read
    split at read
    case h_8 => cases read
    all_goals
      obtain rfl := Option.some.inj read
      exact absurd rfl (content _)
  · obtain ⟨q, -, -, levels, -⟩ := exists_of_variant read
    exact ⟨q, levels⟩

theorem staysSound_frameValue (v : FrameValue) : StaysSound 0 [] frameValue ofFrameValue v := by
  intro p w read _ _
  cases v with
  | uninitialized label =>
    obtain ⟨q, levels⟩ := exists_level_of_frameValue read (by rintro name ⟨⟩)
    exact isSound_tag_iff.2 ⟨_, levels, isSound_uint32 label⟩
  | object name =>
    obtain ⟨q, levels⟩ := exists_level_of_frameValue read (by rintro name ⟨⟩)
    exact isSound_tag_iff.2 ⟨_, levels, isSound_text name⟩
  | _ => rfl

/-! ### Instructions -/

theorem isWritten_ofInstruction (i : Instruction) : (ofInstruction i).IsWritten := by
  cases i with
  | _ => simp [ofInstruction, ofKind, isWritten_ofHandle, isWritten_ofConstant,
      isWritten_ofFrameValue]

theorem rereadsAs_instruction {i : Instruction} (h : AllFinite i.floating) :
    RereadsAs instruction ofInstruction i i.settled := by
  cases i with
  | switch keys labels default =>
    refine RereadsAs.tagged rfl rfl (by simp) fun q sound => ?_
    simp only [List.forall_mem_cons] at sound
    have keys_read := Rereads.list (fun k _ p _ => int32_ofInt k p) q sound.1
    have labels_read := Rereads.list (fun l _ p _ => uint32_ofInt l p) q sound.2.1
    simp [instructionOfKind, Members.get, List.lookup_cons, keys_read, labels_read, Instruction.settled]
  | invokeDynamic name descriptor bootstrap arguments =>
    refine RereadsAs.tagged rfl rfl (by simp) fun q sound => ?_
    simp only [List.forall_mem_cons] at sound
    have bootstrap_read := rereads_handle bootstrap q sound.2.2.1
    have arguments_read := RereadsAs.list (fun c hc =>
      rereadsAs_constant (allFinite_flatMap_iff.1 h c hc)) q sound.2.2.2.1
    simp [instructionOfKind, Members.get, List.lookup_cons, bootstrap_read, arguments_read,
      Instruction.settled]
  | ldc value =>
    refine RereadsAs.tagged rfl rfl (by simp) fun q sound => ?_
    have value_read := rereadsAs_constant h q (List.forall_mem_cons.1 sound).1
    simp [instructionOfKind, Members.get, value_read, Instruction.settled]
  | frame locals stack =>
    refine RereadsAs.tagged rfl rfl (by simp) fun q sound => ?_
    simp only [List.forall_mem_cons] at sound
    have locals_read := Rereads.list (fun v _ => rereads_frameValue v) q sound.1
    have stack_read := Rereads.list (fun v _ => rereads_frameValue v) q sound.2.1
    simp [instructionOfKind, Members.get, List.lookup_cons, locals_read, stack_read,
      Instruction.settled]
  | _ =>
    refine RereadsAs.tagged rfl rfl (by simp) fun q sound => ?_
    simp [instructionOfKind, Members.get, List.lookup_cons, Instruction.settled]

section

variable {kind : String} {r : Members}

theorem get_of_switch {keys : List Int32} {labels : List UInt32} {default : UInt32}
    (read : instructionOfKind kind r = some (.switch keys labels default)) :
    r.get "keys" (list int32) = some keys ∧ r.get "labels" (list uint32) = some labels := by
  unfold instructionOfKind at read
  split at read
  all_goals simp_all [Option.bind_eq_some_iff]

theorem get_of_invokeDynamic {name descriptor : String} {bootstrap : Handle}
    {arguments : List Constant}
    (read : instructionOfKind kind r = some (.invokeDynamic name descriptor bootstrap arguments)) :
    r.get "bootstrap" handle = some bootstrap ∧
      r.get "arguments" (list constant) = some arguments := by
  unfold instructionOfKind at read
  split at read
  all_goals simp_all [Option.bind_eq_some_iff]

theorem get_of_ldc {value : Constant} (read : instructionOfKind kind r = some (.ldc value)) :
    r.get "value" constant = some value := by
  unfold instructionOfKind at read
  split at read
  all_goals simp_all [Option.bind_eq_some_iff]

theorem get_of_frame {locals stack : List FrameValue}
    (read : instructionOfKind kind r = some (.frame locals stack)) :
    r.get "locals" (list frameValue) = some locals ∧
      r.get "stack" (list frameValue) = some stack := by
  unfold instructionOfKind at read
  split at read
  all_goals simp_all [Option.bind_eq_some_iff]

end

theorem staysSound_instruction (i : Instruction) :
    StaysSound 0 [] instruction ofInstruction i := by
  intro p v read _ _
  obtain ⟨kind, r, levels, read⟩ := exists_of_tagged read
  rw [levels]
  cases i with
  | switch keys labels default =>
    obtain ⟨keys_read, labels_read⟩ := get_of_switch read
    have keys_sound := (StaysSound.plainList fun (k : Int32) _ =>
      .of_isSound fun _ => isSound_int32 k).plainGet keys_read
    have labels_sound := (StaysSound.plainList fun (l : UInt32) _ =>
      .of_isSound fun _ => isSound_uint32 l).plainGet labels_read
    exact isSound_record_iff.2 ⟨_, rfl, by simp [keys_sound, labels_sound]⟩
  | invokeDynamic name descriptor bootstrap arguments =>
    obtain ⟨bootstrap_read, arguments_read⟩ := get_of_invokeDynamic read
    have bootstrap_sound := (staysSound_handle bootstrap).plainGet bootstrap_read
    have arguments_sound := (StaysSound.plainList fun c _ =>
      staysSound_constant c).plainGet arguments_read
    exact isSound_record_iff.2 ⟨_, rfl, by simp [bootstrap_sound, arguments_sound]⟩
  | ldc value =>
    have value_sound := (staysSound_constant value).plainGet (get_of_ldc read)
    exact isSound_record_iff.2 ⟨_, rfl, by simp [value_sound]⟩
  | frame locals stack =>
    obtain ⟨locals_read, stack_read⟩ := get_of_frame read
    have locals_sound := (StaysSound.plainList fun v _ => staysSound_frameValue v).plainGet
      locals_read
    have stack_sound := (StaysSound.plainList fun v _ => staysSound_frameValue v).plainGet
      stack_read
    exact isSound_record_iff.2 ⟨_, rfl, by simp [locals_sound, stack_sound]⟩
  | _ => exact isSound_record_iff.2 ⟨_, rfl, by simp⟩

end Document

end Pseudonym
