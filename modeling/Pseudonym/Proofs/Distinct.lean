import Pseudonym.Proofs.Reading

/-!
# Generated names keep symbols apart

Under generated names a class keeps its name or gets a token, and so does a member. Tokens differ
from each other because each can be decoded. A token never meets a name that was kept: it starts
with the opening marker, while a class outside the scope must not start with it, and a reserved name
is chosen without it. Within one class, members are all in scope or all out of it, so that nothing
else can meet.

For references the owner and the descriptor are compared as well. Both are namings, and a naming
can be told from its answer,

    (p.withText s).read = .ok (u.renamed f),  f injective  →  s determines u, and u determines p.
-/

namespace Pseudonym

/-! ### Names -/

namespace Markers

variable {m : Markers}

theorem name_of_encode {a b token : String} {c d : Bool} (ha : m.encode a c = .ok token)
    (hb : m.encode b d = .ok token) : a = b :=
  Except.ok.inj ((decode_of_encode ha).symm.trans (decode_of_encode hb))

/-- What becomes of a name: in scope it may get a token, and a name that is kept there does not
start with the opening marker. -/
def Becomes (m : Markers) (inScope : Prop) (name s : String) : Prop :=
  (inScope ∧ ∃ isClass, m.encode name isClass = .ok s) ∨
    (s = name ∧ (inScope → m.isEncoded name = false))

/-- **Names under one owner stay apart**, whether they get tokens or are kept. -/
theorem Becomes.inj {m : Markers} {inScope : Prop} {a b s : String} (ha : m.Becomes inScope a s)
    (hb : m.Becomes inScope b s) : a = b := by
  have apart {a b : String} {isClass : Bool} (scope : inScope) (token : m.encode a isClass = .ok s)
      (kept : s = b) (free : inScope → m.isEncoded b = false) : a = b := by
    have starts : m.isEncoded b = true := kept ▸ isEncoded_of_encode token
    exact absurd starts (by simp [free scope])
  -- Two tokens are decoded, two kept names are what they are, and one of each cannot meet.
  rcases ha with ⟨scope, _, token⟩ | ⟨kept, free⟩
  · rcases hb with ⟨_, _, token'⟩ | ⟨kept', free'⟩
    · exact name_of_encode token token'
    · exact apart scope token kept' free'
  · rcases hb with ⟨scope, _, token'⟩ | ⟨kept', _⟩
    · exact (apart scope token' kept free).symm
    · exact kept.symm.trans kept'

end Markers

namespace Mapping

/-- The new name of a symbol. A symbol that the mapping leaves alone keeps its name. -/
def newName (mapping : Mapping) (e : Entity) : Except Error String :=
  (·.getD e.name) <$> mapping.lookup e

variable {symbols : SymbolSource} {m : Markers} {reserved : List String}

theorem becomes_class {name s : String}
    (h : (generated symbols m reserved).newName (.class name) = .ok s) : m.Becomes True name s := by
  obtain ⟨found, looked, rfl⟩ := map_eq_ok_iff.1 h
  rcases tokenIn_eq_ok_iff.1 looked with ⟨_, token, encoded, rfl⟩ | ⟨_, free, rfl⟩
  · exact Or.inl ⟨trivial, true, encoded⟩
  · exact Or.inr ⟨rfl, fun _ => free⟩

theorem becomes_of_tokenIn {owner name : String} {found : Option String}
    (h : tokenIn symbols m owner name false = .ok found) :
    m.Becomes (symbols.isPrimary owner = true) name (found.getD name) := by
  rcases tokenIn_eq_ok_iff.1 h with ⟨primary, token, encoded, rfl⟩ | ⟨foreign, _, rfl⟩
  · exact Or.inl ⟨primary, false, encoded⟩
  · exact Or.inr ⟨rfl, fun primary => absurd primary (by simp [foreign])⟩

theorem becomes_field {owner name d s : String}
    (h : (generated symbols m reserved).newName (.field owner name d) = .ok s) :
    m.Becomes (symbols.isPrimary owner = true) name s := by
  obtain ⟨found, looked, rfl⟩ := map_eq_ok_iff.1 h
  exact becomes_of_tokenIn looked

theorem becomes_method (free : ∀ name ∈ reserved, m.carries name = false) {owner name d s : String}
    (h : (generated symbols m reserved).newName (.method owner name d) = .ok s) :
    m.Becomes (symbols.isPrimary owner = true) name s := by
  obtain ⟨found, looked, rfl⟩ := map_eq_ok_iff.1 h
  by_cases reservedName : name ∈ reserved
  -- A reserved name is kept whoever declares it, and is free of the markers by assumption.
  · have kept : found = none := by
      obtain ⟨scope, _, looked⟩ := bind_eq_ok_iff.1 looked
      rw [if_pos (List.contains_iff_mem.2 reservedName), ite_self] at looked
      exact (pure_eq_ok_iff.1 looked).symm
    subst kept
    refine Or.inr ⟨rfl, fun _ => ?_⟩
    rw [← Bool.not_eq_true]
    intro starts
    exact absurd (Markers.carries_of_isEncoded starts) (by simp [free name reservedName])
  · have other : (generated symbols m reserved).methodName owner name d =
        tokenIn symbols m owner name false := by
      have absent : reserved.contains name = false := by
        rw [← Bool.not_eq_true, List.contains_iff_mem]
        exact reservedName
      simp only [generated, tokenIn, absent, Bool.false_eq_true, if_false]
    exact becomes_of_tokenIn (other ▸ looked)

end Mapping

/-! ### References -/

/-- A reference to a member of a class. -/
structure Reference where
  owner : String
  name : String
  descriptor : String
deriving DecidableEq, Repr

namespace Renamer

variable {r : Renamer}

/-- A reference after renaming, of a member that is known as a symbol and has its type written in a
descriptor. -/
def reference (r : Renamer) (symbol : String → String → String → Entity) (type : String → Naming)
    (x : Reference) : Except Error Reference := do
  let owner ← (r.rename (.type x.owner)).outcome
  let name ← r.mapping.newName (symbol x.owner x.name x.descriptor)
  let descriptor ← (r.rename (type x.descriptor).mention).outcome
  return ⟨owner, name, descriptor⟩

/-- A reference to a field after renaming. -/
def fieldReference (r : Renamer) : Reference → Except Error Reference :=
  r.reference .field .descriptor

/-- A reference to a method after renaming. -/
def methodReference (r : Renamer) : Reference → Except Error Reference :=
  r.reference .method .methodDescriptor

theorem newName_of_className {name s : String} (h : (r.className name).outcome = .ok s) :
    r.mapping.newName (.class name) = .ok s := by
  rwa [className, outcome_replace] at h

/-- Two namings of one kind with the same answer are the same. -/
theorem text_of_answer (hm : r.mapping.IsLegal)
    (apart : ∀ a b new, r.mapping.newName (.class a) = .ok new →
      r.mapping.newName (.class b) = .ok new → a = b)
    {p q : Naming} {s : String} (kind : p.withText s = q.withText s)
    (hp : (r.rename p.mention).outcome = .ok s) (hq : (r.rename q.mention).outcome = .ok s) :
    p.mention.text = q.mention.text := by
  obtain ⟨u, read, answered, renamed⟩ := read_answer hm hp
  obtain ⟨v, read', answered', renamed'⟩ := read_answer hm hq
  have same : u.renamed r.mapping.classAfter = v.renamed r.mapping.classAfter := by
    rw [kind, renamed'] at renamed
    exact (Except.ok.inj renamed).symm
  have equal : u = v := by
    refine Reading.renamed_inj (fun a ha b hb names => ?_) same
    have new := newName_of_className (answered a ha)
    have new' := newName_of_className (answered' b hb)
    exact apart a b _ new (names ▸ new')
  rw [← String.toList_inj, Naming.toText_of_read read, Naming.toText_of_read read', equal]

/-- References stay apart where the names under each owner do. -/
theorem reference_inj (hm : r.mapping.IsLegal)
    (apart : ∀ a b new, r.mapping.newName (.class a) = .ok new →
      r.mapping.newName (.class b) = .ok new → a = b)
    {symbol : String → String → String → Entity} {type : String → Naming}
    (names : ∀ owner a b d e new, r.mapping.newName (symbol owner a d) = .ok new →
      r.mapping.newName (symbol owner b e) = .ok new → a = b)
    (types : ∀ d, (type d).mention.text = d)
    (kind : ∀ d e s, (type d).withText s = (type e).withText s)
    {x y z : Reference} (hx : r.reference symbol type x = .ok z)
    (hy : r.reference symbol type y = .ok z) : x = y := by
  obtain ⟨owner, name, descriptor⟩ := x
  obtain ⟨owner', name', descriptor'⟩ := y
  obtain ⟨newOwner, ho, hx⟩ := bind_eq_ok_iff.1 hx
  obtain ⟨newName, hn, hx⟩ := bind_eq_ok_iff.1 hx
  obtain ⟨newDescriptor, hd, hx⟩ := bind_eq_ok_iff.1 hx
  obtain rfl := pure_eq_ok_iff.1 hx
  obtain ⟨newOwner', ho', hy⟩ := bind_eq_ok_iff.1 hy
  obtain ⟨newName', hn', hy⟩ := bind_eq_ok_iff.1 hy
  obtain ⟨newDescriptor', hd', hy⟩ := bind_eq_ok_iff.1 hy
  obtain ⟨rfl, rfl, rfl⟩ := Reference.mk.inj (pure_eq_ok_iff.1 hy)
  have owners : owner = owner' :=
    text_of_answer hm apart (p := .type owner) (q := .type owner') rfl ho ho'
  have descriptors := text_of_answer hm apart (kind descriptor descriptor' _) hd hd'
  rw [types, types] at descriptors
  subst owners
  rw [names owner name name' descriptor descriptor' _ hn hn', descriptors]

/-- **Generated names merge no two symbols.**  Two classes with the same new name are one class, and
two references to fields, or to methods, that look the same after renaming are one reference. The
reserved names must be free of the markers, for a reserved name that is a token would meet what it
is the token of. -/
theorem generated_names_stay_apart (symbols : SymbolSource) (m : Markers) {reserved : List String}
    (free : ∀ name ∈ reserved, m.carries name = false) (src : Option SymbolSource) :
    (∀ a b new, (Mapping.generated symbols m reserved).newName (.class a) = .ok new →
      (Mapping.generated symbols m reserved).newName (.class b) = .ok new → a = b) ∧
    (∀ x y z, (generated symbols m reserved src).fieldReference x = .ok z →
      (generated symbols m reserved src).fieldReference y = .ok z → x = y) ∧
    (∀ x y z, (generated symbols m reserved src).methodReference x = .ok z →
      (generated symbols m reserved src).methodReference y = .ok z → x = y) := by
  have classes : ∀ a b new,
      (Mapping.generated symbols m reserved).newName (.class a) = .ok new →
        (Mapping.generated symbols m reserved).newName (.class b) = .ok new → a = b :=
    fun a b new ha hb => (Mapping.becomes_class ha).inj (Mapping.becomes_class hb)
  refine ⟨classes, ?_, ?_⟩
  · intro x y z
    refine reference_inj Mapping.isLegal_generated classes ?_ (fun _ => rfl) (fun _ _ _ => rfl)
    intro owner a b d e new ha hb
    exact (Mapping.becomes_field ha).inj (Mapping.becomes_field hb)
  · intro x y z
    refine reference_inj Mapping.isLegal_generated classes ?_ (fun _ => rfl) (fun _ _ _ => rfl)
    intro owner a b d e new ha hb
    exact (Mapping.becomes_method free ha).inj (Mapping.becomes_method free hb)

/-- A method with a reserved name, one that gets a token, and one of a library. -/
theorem generated_names_stay_apart_reserved :
    let symbols : SymbolSource :=
      { find? := fun _ => none, isPrimary := fun name => name == "a/B", names := ["a/B"] }
    let r := generated symbols Markers.sample defaultReserved none
    let entry : Reference := ⟨"a/B", "main", "([La/B;)V"⟩
    let member : Reference := ⟨"a/B", "run", "([La/B;)V"⟩
    let foreign : Reference := ⟨"java/B", "run", "([La/B;)V"⟩
    (∀ name ∈ defaultReserved, Markers.sample.carries name = false) ∧
      ∃ x y z, r.methodReference entry = .ok x ∧ r.methodReference member = .ok y ∧
        r.methodReference foreign = .ok z ∧ x ≠ y ∧ y ≠ z ∧ x ≠ z := by
  intro symbols r entry member foreign
  have free : ∀ name ∈ defaultReserved, Markers.sample.carries name = false := by decide +kernel
  have succeeds {x : Reference} (h : (r.methodReference x).toOption.isSome = true) :
      ∃ z, r.methodReference x = .ok z := by
    obtain ⟨z, found⟩ := Option.isSome_iff_exists.1 h
    exact ⟨z, toOption_eq_some_iff.1 found⟩
  obtain ⟨x, hx⟩ := succeeds (x := entry) (by decide +kernel)
  obtain ⟨y, hy⟩ := succeeds (x := member) (by decide +kernel)
  obtain ⟨z, hz⟩ := succeeds (x := foreign) (by decide +kernel)
  obtain ⟨_, _, methods⟩ := generated_names_stay_apart symbols Markers.sample free none
  refine ⟨free, x, y, z, hx, hy, hz, ?_, ?_, ?_⟩
  · rintro rfl
    exact absurd (methods _ _ _ hx hy) (by decide)
  · rintro rfl
    exact absurd (methods _ _ _ hy hz) (by decide)
  · rintro rfl
    exact absurd (methods _ _ _ hx hz) (by decide)

end Renamer

end Pseudonym
