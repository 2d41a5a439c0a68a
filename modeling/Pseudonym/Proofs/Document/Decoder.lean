import Mathlib.Data.List.Nodup
import Pseudonym.Class.ClassFile
import Pseudonym.Document.Decoder
import Pseudonym.Document.Write
import Pseudonym.Proofs.Json.ReadBack

/-!
# What decoders read and what is written for it

A decoder and a function that writes values belong together in two ways. What is written is read
again, wherever it is not nested too deep (`Rereads`),

    isSound p.levels (of x)  →  item p (of x) = some x,

or something else is read in its place, if numbers are rounded on the way (`RereadsAs`). And what was
read is written with no more levels than there were (`StaysSound`),

    item p v = some x  →  isSound p.levels (of x).

The second does not hold of everything. A record with default members can stand where no level is
left for a list inside it, but is written with all of its lists. `StaysSound` has a least number of
levels and exceptions for such records. On the exceptions what is written is not just unsound, it is
refused by the decoder (`Refuses`).

Below are the three for the shapes that class documents are made of, from numbers to records. A
record is written as an object with all members in order, and its decoder looks them up by name.
-/

namespace Pseudonym.Document

open Json

/-! ### Positions -/

theorem Position.enter?_eq_some_iff {p q : Position} :
    p.enter? = some q ↔ p.levels = q.levels + 1 ∧ p.inInstruction = q.inInstruction := by
  obtain ⟨levels, inInstruction⟩ := p
  obtain ⟨levels', inInstruction'⟩ := q
  cases levels with
  | zero => simp [enter?]
  | succ levels => simp [enter?]

/-! ### Sound values -/

section

variable {levels : Nat}

@[simp] theorem isSound_null : isSound levels .null = true := rfl

@[simp] theorem isSound_bool (b : Bool) : isSound levels (.bool b) = true := rfl

@[simp] theorem isSound_text (s : String) : isSound levels (.text s) = true := rfl

@[simp] theorem isSound_ofText? (text : Option String) : isSound levels (ofText? text) = true := by
  cases text with
  | none => rfl
  | some s => rfl

theorem isSound_ofInt {i : Int} (h : i.natAbs ≤ maxWord) : isSound levels (ofInt i) = true :=
  toDouble?_ofInt h

@[simp] theorem isSound_uint8 (n : UInt8) : isSound levels (ofInt n.toNat) = true :=
  isSound_ofInt (by have := n.toNat_lt; simp only [maxWord]; omega)

@[simp] theorem isSound_uint16 (n : UInt16) : isSound levels (ofInt n.toNat) = true :=
  isSound_ofInt (by have := n.toNat_lt; simp only [maxWord]; omega)

@[simp] theorem isSound_uint32 (n : UInt32) : isSound levels (ofInt n.toNat) = true :=
  isSound_ofInt (by have := n.toNat_lt; simp only [maxWord]; omega)

@[simp] theorem isSound_int16 (n : Int16) : isSound levels (ofInt n.toInt) = true :=
  isSound_ofInt (by have := n.toInt_lt; have := n.le_toInt; simp only [maxWord]; omega)

@[simp] theorem isSound_int32 (n : Int32) : isSound levels (ofInt n.toInt) = true :=
  isSound_ofInt (by have := n.toInt_lt; have := n.le_toInt; simp only [maxWord]; omega)

@[simp] theorem isSound_int64 (n : Int64) : isSound levels (ofInt n.toInt) = true :=
  isSound_ofInt (by have := n.toInt_lt; have := n.le_toInt; simp only [maxWord]; omega)

theorem areSound_iff {vs : List Value} :
    areSound levels vs = true ↔ ∀ v ∈ vs, isSound levels v = true := by
  induction vs with
  | nil => simp [areSound]
  | cons v vs ih => simp [areSound, ih]

theorem isSound_array_iff {vs : List Value} :
    isSound levels (.array vs) = true ↔
      ∃ inner, levels = inner + 1 ∧ ∀ v ∈ vs, isSound inner v = true := by
  cases levels with
  | zero => simp [isSound]
  | succ levels => simp [isSound, areSound_iff]

theorem membersAreSound_record {members : List (String × Value)} :
    membersAreSound levels (members.map fun member => (some member.1, member.2)) = true ↔
      ∀ member ∈ members, isSound levels member.2 = true := by
  induction members with
  | nil => simp [membersAreSound]
  | cons member members ih => simp [membersAreSound, ih]

theorem isSound_record_iff {members : List (String × Value)} :
    isSound levels (.record members) = true ↔
      ∃ inner, levels = inner + 1 ∧ ∀ member ∈ members, isSound inner member.2 = true := by
  cases levels with
  | zero => simp [isSound, Value.record]
  | succ levels => simp [isSound, Value.record, membersAreSound_record]

theorem isSound_tag_iff {name : String} {v : Value} :
    isSound levels (tag name v) = true ↔ ∃ inner, levels = inner + 1 ∧ isSound inner v = true := by
  rw [tag, isSound_record_iff]
  simp

end

section

variable {p : Position}

theorem exists_enter_of_array {vs : List Value} (sound : isSound p.levels (.array vs) = true) :
    ∃ q, p.enter? = some q ∧ p.levels = q.levels + 1 ∧ ∀ v ∈ vs, isSound q.levels v = true := by
  obtain ⟨inner, levels, sound⟩ := isSound_array_iff.1 sound
  exact ⟨⟨inner, p.inInstruction⟩, Position.enter?_eq_some_iff.2 ⟨levels, rfl⟩, levels, sound⟩

theorem exists_enter_of_record {members : List (String × Value)}
    (sound : isSound p.levels (.record members) = true) :
    ∃ q, p.enter? = some q ∧ p.levels = q.levels + 1 ∧
      ∀ member ∈ members, isSound q.levels member.2 = true := by
  obtain ⟨inner, levels, sound⟩ := isSound_record_iff.1 sound
  exact ⟨⟨inner, p.inInstruction⟩, Position.enter?_eq_some_iff.2 ⟨levels, rfl⟩, levels, sound⟩

theorem exists_enter_of_tag {name : String} {v : Value}
    (sound : isSound p.levels (tag name v) = true) :
    ∃ q, p.enter? = some q ∧ p.levels = q.levels + 1 ∧ isSound q.levels v = true := by
  obtain ⟨inner, levels, sound⟩ := isSound_tag_iff.1 sound
  exact ⟨⟨inner, p.inInstruction⟩, Position.enter?_eq_some_iff.2 ⟨levels, rfl⟩, levels, sound⟩

end

/-! ### Written values -/

@[simp] theorem isWritten_ofInt (i : Int) : (ofInt i).IsWritten := Json.isWritten_ofInt i

@[simp] theorem isWritten_ofText? (text : Option String) : (ofText? text).IsWritten := by
  cases text with
  | none => exact Value.isWritten_null
  | some s => exact Value.isWritten_text s

@[simp] theorem isWritten_tag_iff {name : String} {v : Value} :
    (tag name v).IsWritten ↔ v.IsWritten := by
  simp [tag]

/-! ### Depths -/

/-- Depths counted from one array or object further out. -/
def deeper (depths : List Nat) : List Nat := depths.map (· + 1)

theorem mem_deeper_iff {n : Nat} {depths : List Nat} :
    n ∈ deeper depths ↔ ∃ m, n = m + 1 ∧ m ∈ depths := by
  simp [deeper, and_comm, eq_comm]

@[simp] theorem succ_mem_deeper {n : Nat} {depths : List Nat} :
    n + 1 ∈ deeper depths ↔ n ∈ depths := by
  simp [deeper]

theorem exists_enter_of_mem_deeper {p : Position} {depths : List Nat}
    (h : p.levels ∈ deeper depths) : ∃ q, p.enter? = some q ∧ q.levels ∈ depths := by
  obtain ⟨n, levels, hn⟩ := mem_deeper_iff.1 h
  exact ⟨⟨n, p.inInstruction⟩, Position.enter?_eq_some_iff.2 ⟨levels, rfl⟩, hn⟩

theorem deeper_flatMap {α : Type} (depths : α → List Nat) (xs : List α) :
    deeper (xs.flatMap depths) = xs.flatMap fun x => deeper (depths x) :=
  List.map_flatMap ..

/-! ### Decoders and the values written for them -/

namespace Decoder

variable {α β : Type}

/-- Whether what is written for `x` is read as `y`. -/
def RereadsAs (item : Decoder α) (of : α → Value) (x y : α) : Prop :=
  ∀ p, isSound p.levels (of x) = true → item p (of x) = some y

/-- Whether what is written for `x` is read as `x`. -/
abbrev Rereads (item : Decoder α) (of : α → Value) (x : α) : Prop := RereadsAs item of x x

/-- Whether what is written for `x` is sound wherever `x` was read from, given that there are some
levels and that their number is none of the exceptions. -/
def StaysSound (least : Nat) (exceptions : List Nat) (item : Decoder α) (of : α → Value) (x : α) :
    Prop :=
  ∀ p v, item p v = some x → least ≤ p.levels → p.levels ∉ exceptions →
    isSound p.levels (of x) = true

/-- Whether what is written for `x` is refused with certain numbers of levels. -/
def Refuses (depths : List Nat) (item : Decoder α) (of : α → Value) (x : α) : Prop :=
  ∀ p, p.levels ∈ depths → item p (of x) = none

theorem int_ofInt {low high i : Int} (h : low ≤ i ∧ i ≤ high) (p : Position) :
    int low high p (ofInt i) = some i := by
  show ((Number.ofInt i).toInt?.filter fun i => low ≤ i && i ≤ high) = some i
  simp [h]

@[simp] theorem uint8_ofInt (n : UInt8) (p : Position) : uint8 p (ofInt n.toNat) = some n := by
  have := n.toNat_lt
  simp [uint8, int_ofInt (show (0 : Int) ≤ n.toNat ∧ (n.toNat : Int) ≤ 255 by omega)]

@[simp] theorem uint16_ofInt (n : UInt16) (p : Position) : uint16 p (ofInt n.toNat) = some n := by
  have := n.toNat_lt
  simp [uint16, int_ofInt (show (0 : Int) ≤ n.toNat ∧ (n.toNat : Int) ≤ 65535 by omega)]

@[simp] theorem uint32_ofInt (n : UInt32) (p : Position) : uint32 p (ofInt n.toNat) = some n := by
  have := n.toNat_lt
  simp [uint32, int_ofInt (show (0 : Int) ≤ n.toNat ∧ (n.toNat : Int) ≤ 0xFFFFFFFF by omega)]

@[simp] theorem int16_ofInt (n : Int16) (p : Position) : int16 p (ofInt n.toInt) = some n := by
  rw [int16, int_ofInt ⟨n.minValue_le_toInt, n.toInt_le⟩, Option.map_some, Int16.ofInt_toInt]

@[simp] theorem int32_ofInt (n : Int32) (p : Position) : int32 p (ofInt n.toInt) = some n := by
  rw [int32, int_ofInt ⟨n.minValue_le_toInt, n.toInt_le⟩, Option.map_some, Int32.ofInt_toInt]

@[simp] theorem int64_ofInt (n : Int64) (p : Position) : int64 p (ofInt n.toInt) = some n := by
  rw [int64, int_ofInt ⟨n.minValue_le_toInt, n.toInt_le⟩, Option.map_some, Int64.ofInt_toInt]

@[simp] theorem string_text (s : String) (p : Position) : string p (.text s) = some s := rfl

@[simp] theorem bool_bool (b : Bool) (p : Position) : bool p (.bool b) = some b := rfl

@[simp] theorem optional_ofText? (text : Option String) (p : Position) :
    string.optional p (ofText? text) = some text := by
  cases text with
  | none => rfl
  | some s => rfl

section

variable {item : Decoder α} {of : α → Value} {least : Nat} {exceptions : List Nat} {x : α}

theorem StaysSound.of_isSound (h : ∀ levels, isSound levels (of x) = true) :
    StaysSound least exceptions item of x :=
  fun p _ _ _ _ => h p.levels

/-! ### Lists and what may be missing -/

theorem mapM_map_of_forall {γ : Type} {f : β → Option γ} {of : α → β} {settle : α → γ}
    {xs : List α} (h : ∀ x ∈ xs, f (of x) = some (settle x)) :
    (xs.map of).mapM f = some (xs.map settle) := by
  induction xs with
  | nil => rfl
  | cons x xs ih =>
    rw [List.forall_mem_cons] at h
    rw [List.map_cons, List.mapM_cons, h.1, ih h.2]
    rfl

theorem exists_of_mapM_eq_some {f : β → Option α} {vs : List β} {xs : List α}
    (h : vs.mapM f = some xs) : ∀ x ∈ xs, ∃ v, f v = some x := by
  induction vs generalizing xs with
  | nil =>
    obtain rfl := Option.some.inj h
    simp
  | cons v vs ih =>
    rw [List.mapM_cons] at h
    obtain ⟨first, read, h⟩ := Option.bind_eq_some_iff.1 h
    obtain ⟨others, reads, h⟩ := Option.bind_eq_some_iff.1 h
    obtain rfl := Option.some.inj h
    exact List.forall_mem_cons.2 ⟨⟨v, read⟩, ih reads⟩

theorem mapM_eq_none_of_mem {f : β → Option α} {vs : List β} {v : β} (hv : v ∈ vs)
    (h : f v = none) : vs.mapM f = none := by
  induction vs with
  | nil => cases hv
  | cons first others ih =>
    rw [List.mapM_cons]
    rcases List.mem_cons.1 hv with rfl | hv
    · rw [h]
      rfl
    · rw [ih hv]
      cases f first <;> rfl

theorem list_array {p q : Position} (entered : p.enter? = some q) {settle : α → α} {xs : List α}
    (h : ∀ x ∈ xs, item q (of x) = some (settle x)) :
    list item p (.array (xs.map of)) = some (xs.map settle) := by
  show (p.enter?.bind fun q => (xs.map of).mapM (item q)) = some (xs.map settle)
  rw [entered]
  exact mapM_map_of_forall h

theorem exists_of_list {p : Position} {v : Value} {xs : List α} (h : list item p v = some xs) :
    ∃ q, p.levels = q.levels + 1 ∧ ∀ x ∈ xs, ∃ v, item q v = some x := by
  unfold list at h
  split at h
  · obtain ⟨q, entered, h⟩ := Option.bind_eq_some_iff.1 h
    exact ⟨q, (Position.enter?_eq_some_iff.1 entered).1, exists_of_mapM_eq_some h⟩
  · cases h

theorem RereadsAs.list {settle : α → α} {xs : List α}
    (h : ∀ x ∈ xs, RereadsAs item of x (settle x)) :
    RereadsAs (list item) (fun xs => .array (xs.map of)) xs (xs.map settle) := by
  intro p sound
  obtain ⟨q, entered, -, sound⟩ := exists_enter_of_array sound
  exact list_array entered fun x hx => h x hx _ (sound (of x) (List.mem_map_of_mem hx))

theorem Rereads.list {xs : List α} (h : ∀ x ∈ xs, Rereads item of x) :
    Rereads (list item) (fun xs => .array (xs.map of)) xs := by
  have read : RereadsAs (Decoder.list item) (fun xs => .array (xs.map of)) xs (xs.map id) :=
    RereadsAs.list h
  rwa [List.map_id] at read

/-- Every item of a list that was read has a level less than the list. -/
theorem StaysSound.list {outer : Nat} {exceptions : α → List Nat} {xs : List α}
    (h : ∀ x ∈ xs, StaysSound least (exceptions x) item of x) (hl : least ≤ outer - 1) :
    StaysSound outer (deeper (xs.flatMap exceptions)) (Decoder.list item)
      (fun xs => .array (xs.map of)) xs := by
  intro p v read enough free
  obtain ⟨q, levels, reads⟩ := exists_of_list read
  refine isSound_array_iff.2 ⟨q.levels, levels, fun v hv => ?_⟩
  obtain ⟨x, hx, rfl⟩ := List.mem_map.1 hv
  obtain ⟨v, read⟩ := reads x hx
  refine h x hx q v read (by omega) fun excepted => free ?_
  rw [levels, succ_mem_deeper]
  exact List.mem_flatMap.2 ⟨x, hx, excepted⟩

theorem StaysSound.plainList {xs : List α} (h : ∀ x ∈ xs, StaysSound 0 [] item of x) :
    StaysSound 0 [] (Decoder.list item) (fun xs => .array (xs.map of)) xs := by
  have sound : StaysSound 0 (deeper (xs.flatMap fun _ => [])) (Decoder.list item)
      (fun xs => .array (xs.map of)) xs := StaysSound.list h (Nat.zero_le _)
  rwa [List.flatMap_eq_nil_iff.2 fun _ _ => rfl] at sound

theorem Refuses.list {depths : α → List Nat} {xs : List α}
    (h : ∀ x ∈ xs, Refuses (depths x) item of x) :
    Refuses (deeper (xs.flatMap depths)) (list item) (fun xs => .array (xs.map of)) xs := by
  intro p hp
  obtain ⟨q, entered, hq⟩ := exists_enter_of_mem_deeper hp
  obtain ⟨x, hx, hq⟩ := List.mem_flatMap.1 hq
  show (p.enter?.bind fun q => (xs.map of).mapM (item q)) = none
  rw [entered]
  exact mapM_eq_none_of_mem (List.mem_map_of_mem hx) (h x hx q hq)

/-- What is written for a value that may be missing. -/
def ofOptional (of : α → Value) (x : Option α) : Value := (x.map of).getD .null

theorem RereadsAs.optional (hn : ∀ x, of x ≠ .null) {settle : α → α} {o : Option α}
    (h : ∀ x ∈ o, RereadsAs item of x (settle x)) :
    RereadsAs (optional item) (ofOptional of) o (o.map settle) := by
  intro p sound
  cases o with
  | none => rfl
  | some x =>
    have read := h x rfl p sound
    show Decoder.optional item p (of x) = _
    unfold Decoder.optional
    split
    · next null => exact absurd null (hn x)
    · rw [read]
      rfl

theorem StaysSound.optional {exceptions : α → List Nat} {o : Option α}
    (h : ∀ x ∈ o, StaysSound least (exceptions x) item of x) :
    StaysSound least (o.toList.flatMap exceptions) (optional item) (ofOptional of) o := by
  intro p v read enough free
  cases o with
  | none => rfl
  | some x =>
    unfold Decoder.optional at read
    split at read
    · cases read
    · obtain ⟨y, found, same⟩ := Option.map_eq_some_iff.1 read
      rw [Option.some.inj same] at found
      exact h x rfl p _ found enough (by simpa using free)

theorem Refuses.optional {depths : α → List Nat} (hn : ∀ x, of x ≠ .null) {o : Option α}
    (h : ∀ x ∈ o, Refuses (depths x) item of x) :
    Refuses (o.toList.flatMap depths) (optional item) (ofOptional of) o := by
  intro p hp
  cases o with
  | none => cases hp
  | some x =>
    have refused := h x rfl p (by simpa using hp)
    show Decoder.optional item p (of x) = _
    unfold Decoder.optional
    split
    · next null => exact absurd null (hn x)
    · rw [refused]
      rfl

/-! ### Variants -/

theorem exists_of_unit {ofName? : String → Option α} {p : Position} {v : Value}
    (h : unit ofName? p v = some x) : ∃ name, ofName? name = some x := by
  unfold unit at h
  split at h
  · exact ⟨_, h⟩
  · obtain ⟨q, -, h⟩ := Option.bind_eq_some_iff.1 h
    split at h
    · exact ⟨_, h⟩
    · split at h
      · exact ⟨_, h⟩
      · cases h
    · cases h
  · cases h

theorem variant_tag {content : String → Decoder α} {p q : Position} (entered : p.enter? = some q)
    (name : String) (v : Value) : variant content p (tag name v) = content name q v := by
  show (p.enter?.bind fun q => content name q v) = _
  rw [entered]
  rfl

theorem exists_of_variant {content : String → Decoder α} {p : Position} {v : Value}
    (h : variant content p v = some x) :
    ∃ q name v, p.levels = q.levels + 1 ∧ content name q v = some x := by
  unfold variant at h
  split at h
  · obtain ⟨q, entered, h⟩ := Option.bind_eq_some_iff.1 h
    exact ⟨q, _, _, (Position.enter?_eq_some_iff.1 entered).1, h⟩
  · cases h

/-! ### Records -/

section

variable {names : List String} {hasDefaults : Bool} {content : Members → Option α}
  {members : List (String × Value)}

theorem keyed?_record (members : List (String × Value)) :
    keyed? (members.map fun member => (some member.1, member.2)) = some members := by
  have read : (members.map fun member => (some member.1, member.2)).mapM
      (fun member => member.1.map (·, member.2)) = some (members.map id) :=
    mapM_map_of_forall fun _ _ => rfl
  rwa [List.map_id] at read

theorem isUnambiguous_of_nodup (names : List String) (h : (members.map Prod.fst).Nodup) :
    isUnambiguous names members = true := by
  refine List.all_eq_true.2 fun name _ => decide_eq_true ?_
  have once := List.nodup_iff_count_le_one.1 h name
  rwa [List.count_eq_countP, List.countP_map] at once

theorem membersOfObject?_of_nodup (names : List String) (q : Position)
    (h : (members.map Prod.fst).Nodup) : membersOfObject? names q members = some ⟨q, members⟩ :=
  if_pos (isUnambiguous_of_nodup names h)

theorem position_of_membersOfObject? {q : Position} {r : Members}
    (h : membersOfObject? names q members = some r) : r.position = q := by
  unfold membersOfObject? at h
  split at h
  · rw [← Option.some.inj h]
  · cases h

theorem position_of_membersOfArray? {q : Position} {r : Members} {items : List Value}
    (h : membersOfArray? names hasDefaults q items = some r) : r.position = q := by
  unfold membersOfArray? at h
  split at h
  · rw [← Option.some.inj h]
  · cases h

theorem record_record {p q : Position} (entered : p.enter? = some q)
    (distinct : (members.map Prod.fst).Nodup) :
    record names hasDefaults content p (.record members) = content ⟨q, members⟩ := by
  show ((p.enter?.bind fun q => (keyed? _).bind fun members =>
    membersOfObject? names q members).bind content) = _
  rw [entered, keyed?_record]
  show (membersOfObject? names q members).bind content = _
  rw [membersOfObject?_of_nodup names q distinct]
  rfl

theorem exists_of_record {p : Position} {v : Value}
    (h : record names hasDefaults content p v = some x) :
    ∃ r : Members, p.levels = r.position.levels + 1 ∧ content r = some x := by
  obtain ⟨r, found, read⟩ := Option.bind_eq_some_iff.1 h
  refine ⟨r, ?_, read⟩
  unfold members? at found
  split at found
  · obtain ⟨q, entered, found⟩ := Option.bind_eq_some_iff.1 found
    obtain ⟨members, _, found⟩ := Option.bind_eq_some_iff.1 found
    rw [position_of_membersOfObject? found]
    exact (Position.enter?_eq_some_iff.1 entered).1
  · obtain ⟨q, entered, found⟩ := Option.bind_eq_some_iff.1 found
    rw [position_of_membersOfArray? found]
    exact (Position.enter?_eq_some_iff.1 entered).1
  · cases found

/-- A record is read again if its members are, looked up by name. -/
theorem RereadsAs.record {y : α} (written : of x = .record members)
    (distinct : (members.map Prod.fst).Nodup)
    (h : ∀ q, (∀ member ∈ members, isSound q.levels member.2 = true) →
      content ⟨q, members⟩ = some y) :
    RereadsAs (record names hasDefaults content) of x y := by
  intro p sound
  rw [written] at sound ⊢
  obtain ⟨q, entered, -, sound⟩ := exists_enter_of_record sound
  rw [record_record entered distinct]
  exact h _ sound

/-- What is read from members and written with members is written with sound ones if these are sound
wherever they were read from. `P` is what is known of the members that were read. -/
theorem StaysSound.of_members {item : Decoder α} {P : Members → Prop}
    (opened : ∀ p v, item p v = some x → ∃ r, p.levels = r.position.levels + 1 ∧ P r)
    (written : of x = .record members)
    (h : ∀ r, P r → least ≤ r.position.levels + 1 → r.position.levels + 1 ∉ exceptions →
      ∀ member ∈ members, isSound r.position.levels member.2 = true) :
    StaysSound least exceptions item of x := by
  intro p v read enough free
  obtain ⟨r, levels, known⟩ := opened p v read
  rw [levels] at enough free
  rw [written]
  exact isSound_record_iff.2 ⟨r.position.levels, levels, h r known enough free⟩

/-- A record is written with sound members if they are sound wherever they were read from. -/
theorem StaysSound.record (written : of x = .record members)
    (h : ∀ r : Members, content r = some x → least ≤ r.position.levels + 1 →
      r.position.levels + 1 ∉ exceptions →
        ∀ member ∈ members, isSound r.position.levels member.2 = true) :
    StaysSound least exceptions (record names hasDefaults content) of x :=
  .of_members (fun _ _ => exists_of_record) written h

/-- A record is refused if some member is. -/
theorem Refuses.record {depths : List Nat} (written : of x = .record members)
    (distinct : (members.map Prod.fst).Nodup)
    (h : ∀ q : Position, q.levels ∈ depths → content ⟨q, members⟩ = none) :
    Refuses (deeper depths) (record names hasDefaults content) of x := by
  intro p hp
  obtain ⟨q, entered, hq⟩ := exists_enter_of_mem_deeper hp
  rw [written, record_record entered distinct]
  exact h q hq

end

/-! ### Members -/

theorem StaysSound.get (h : StaysSound least exceptions item of x) {r : Members} {name : String}
    (read : r.get name item = some x) (enough : least ≤ r.position.levels)
    (free : r.position.levels ∉ exceptions) : isSound r.position.levels (of x) = true := by
  obtain ⟨v, _, read⟩ := Option.bind_eq_some_iff.1 read
  exact h _ v read enough free

theorem StaysSound.plainGet (h : StaysSound 0 [] item of x) {r : Members} {name : String}
    (read : r.get name item = some x) : isSound r.position.levels (of x) = true :=
  h.get read (Nat.zero_le _) List.not_mem_nil

/-- A member that was missing is written as its default. -/
theorem StaysSound.getD (h : StaysSound least exceptions item of x) {r : Members} {name : String}
    {default : α} (read : r.getD name item default = some x) (enough : least ≤ r.position.levels)
    (free : r.position.levels ∉ exceptions)
    (missing : isSound r.position.levels (of default) = true) :
    isSound r.position.levels (of x) = true := by
  unfold Members.getD at read
  split at read
  · exact h _ _ read enough free
  · rw [← Option.some.inj read]
    exact missing

theorem StaysSound.get? {exceptions : α → List Nat} {o : Option α}
    (h : ∀ x ∈ o, StaysSound least (exceptions x) item of x) {r : Members} {name : String}
    (read : r.get? name item = some o) (enough : least ≤ r.position.levels)
    (free : r.position.levels ∉ o.toList.flatMap exceptions) :
    isSound r.position.levels (ofOptional of o) = true :=
  (StaysSound.optional h).getD read enough free isSound_null

theorem StaysSound.getList {exceptions : α → List Nat} {xs : List α}
    (h : ∀ x ∈ xs, StaysSound least (exceptions x) item of x) {r : Members} {name : String}
    (read : r.getList name item = some xs) (enough : least < r.position.levels)
    (free : r.position.levels ∉ deeper (xs.flatMap exceptions)) :
    isSound r.position.levels (.array (xs.map of)) = true := by
  have sound := StaysSound.list h (show least ≤ r.position.levels - 1 by omega)
  refine sound.getD read (Nat.le_refl _) free (isSound_array_iff.2 ?_)
  exact ⟨r.position.levels - 1, by omega, by simp⟩

theorem StaysSound.plainGetList {xs : List α} (h : ∀ x ∈ xs, StaysSound 0 [] item of x)
    {r : Members} {name : String} (read : r.getList name item = some xs)
    (enough : 0 < r.position.levels) : isSound r.position.levels (.array (xs.map of)) = true :=
  StaysSound.getList h read enough (by simp [deeper])

/-! ### Instructions -/

section

variable {tag : String} {names : String → Option (List String)}
  {content : String → Members → Option α} {kind : String} {members : List (String × Value)}

/-- A record is read by the one member that names the variant. -/
theorem tagged_object {p q : Position} {members : List (Option String × Value)}
    {named : List (String × Value)} (entered : p.enter? = some q)
    (sound : isSound p.levels (.object members) = true) (keyed : keyed? members = some named) :
    tagged tag names content p (.object members) =
      match named.filter (·.1 == tag) with
      | [(_, .string (some name))] => (names name).bind fun known =>
        (membersOfObject? known { q with inInstruction := true }
          (named.filter (·.1 != tag))).bind (content name)
      | _ => none := by
  show (Option.bind (guard (isSound p.levels (.object members))) fun _ =>
    (keyed? members).bind fun _ => p.enter?.bind _) = _
  rw [sound, keyed, entered]
  rfl

theorem tagged_record {p q : Position} (entered : p.enter? = some q)
    (sound : isSound p.levels (.record ((tag, .text kind) :: members)) = true)
    (known : names kind = some (members.map Prod.fst))
    (distinct : (tag :: members.map Prod.fst).Nodup) :
    tagged tag names content p (.record ((tag, .text kind) :: members)) =
      content kind ⟨{ q with inInstruction := true }, members⟩ := by
  obtain ⟨absent, distinct⟩ := List.nodup_cons.1 distinct
  have others : ∀ member ∈ members, member.1 ≠ tag := by
    rintro member hm rfl
    exact absent (List.mem_map_of_mem hm)
  have found : ((tag, Value.text kind) :: members).filter (·.1 == tag) = [(tag, .text kind)] := by
    rw [List.filter_cons_of_pos (by simp), List.filter_eq_nil_iff.2]
    simpa using others
  have rest : ((tag, Value.text kind) :: members).filter (·.1 != tag) = members := by
    rw [List.filter_cons_of_neg (by simp), List.filter_eq_self]
    simpa using others
  rw [Value.record, tagged_object entered sound (keyed?_record _), found, rest]
  show ((names kind).bind fun known =>
    (membersOfObject? known { q with inInstruction := true } members).bind (content kind)) = _
  rw [known]
  show (membersOfObject? _ { q with inInstruction := true } members).bind (content kind) = _
  rw [membersOfObject?_of_nodup _ _ distinct]
  rfl

/-- A variant that is named by a member is read again if its other members are. -/
theorem RereadsAs.tagged {y : α} (written : of x = .record ((tag, .text kind) :: members))
    (known : names kind = some (members.map Prod.fst))
    (distinct : (tag :: members.map Prod.fst).Nodup)
    (h : ∀ q, (∀ member ∈ members, isSound q.levels member.2 = true) →
      content kind ⟨q, members⟩ = some y) :
    RereadsAs (tagged tag names content) of x y := by
  intro p sound
  rw [written] at sound ⊢
  obtain ⟨q, entered, -, members_sound⟩ := exists_enter_of_record sound
  rw [tagged_record entered sound known distinct]
  exact h _ fun member hm => members_sound member (List.mem_cons_of_mem _ hm)

theorem exists_of_tagged {p : Position} {v : Value} (h : tagged tag names content p v = some x) :
    ∃ (kind : String) (r : Members), p.levels = r.position.levels + 1 ∧
      content kind r = some x := by
  unfold tagged at h
  split at h
  · obtain ⟨_, _, h⟩ := Option.bind_eq_some_iff.1 h
    obtain ⟨members, _, h⟩ := Option.bind_eq_some_iff.1 h
    obtain ⟨q, entered, h⟩ := Option.bind_eq_some_iff.1 h
    dsimp only at h
    split at h
    · obtain ⟨known, _, h⟩ := Option.bind_eq_some_iff.1 h
      obtain ⟨r, found, read⟩ := Option.bind_eq_some_iff.1 h
      refine ⟨_, r, ?_, read⟩
      rw [position_of_membersOfObject? found]
      exact (Position.enter?_eq_some_iff.1 entered).1
    · cases h
  · obtain ⟨_, _, h⟩ := Option.bind_eq_some_iff.1 h
    obtain ⟨q, entered, h⟩ := Option.bind_eq_some_iff.1 h
    obtain ⟨known, _, h⟩ := Option.bind_eq_some_iff.1 h
    obtain ⟨r, found, read⟩ := Option.bind_eq_some_iff.1 h
    refine ⟨_, r, ?_, read⟩
    rw [position_of_membersOfArray? found]
    exact (Position.enter?_eq_some_iff.1 entered).1
  · cases h

end

end

end Decoder

end Pseudonym.Document
