import Pseudonym.Proofs.Reversal
import Pseudonym.Proofs.Signature.Suffix

/-!
# Generated names in signatures

A signature with generated names is a spelling of the pieces of the old one, and restoring turns it
into another spelling of them. Around the names nothing changes: an opening marker begins with `v`,
and outside of names a `v` begins the name of a type parameter or a type variable, which stays as a
whole (`restoreText_spelled`). A class type gets the class back that it started with. Behind a point
a token was written for the last segment of the nested class only, packages aside, so this segment
is what comes back,

    La/Outer.Inner;  ↦  La/⟨Outer⟩.⟨Outer$Inner⟩;  ↦  La/Outer.Outer$Inner;

and a signature comes back as it was exactly if no nested class in it got a token, and none that is
nested in a class with a token had more than one segment to show.
-/

namespace Pseudonym

open Text

namespace Signature

open Markers

/-! ### Identifiers -/

/-- Whether the name of a type parameter or a type variable is being read. -/
def Mode.InIdentifier : Mode → Prop
  | .typeParameter | .variable _ => True
  | _ => False

section

variable {s next : State} {c : Char} {place : Nat} {pieces : List Piece}

/-- No token character ends the name of a type parameter or a type variable. -/
theorem inIdentifier_of_step (inside : s.mode.InIdentifier) (hc : isTokenChar c = true)
    (h : step s c place = .ok (next, pieces)) : next.mode.InIdentifier := by
  obtain ⟨part, enclosing, mode⟩ := s
  cases mode with
  | typeParameter | «variable» =>
    unfold step at h
    dsimp only at h
    split at h
    · exact absurd hc (by decide)
    · obtain ⟨rfl, -⟩ := Prod.mk.inj (Except.ok.inj h)
      trivial
  | _ => exact inside.elim

/-- Outside of names a `v` begins the name of a type parameter or a type variable, or belongs to
one. -/
theorem inIdentifier_of_step_v (outside : ∀ outer reversed, s.mode ≠ .segment outer reversed)
    (h : step s 'v' place = .ok (next, pieces)) : next.mode.InIdentifier := by
  obtain ⟨part, enclosing, mode⟩ := s
  cases mode with
  | segment outer reversed => exact absurd rfl (outside outer reversed)
  | typeParameter =>
    exact inIdentifier_of_step (s := ⟨part, enclosing, .typeParameter⟩) trivial (by decide) h
  | «variable» named =>
    exact inIdentifier_of_step (s := ⟨part, enclosing, .variable named⟩) trivial (by decide) h
  | typeParameters | bound =>
    obtain ⟨rfl, -⟩ := Prod.mk.inj (Except.ok.inj h)
    trivial
  | next =>
    cases enclosing with
    | cons name others => cases h
    | nil =>
      cases part with
      | bounds =>
        obtain ⟨rfl, -⟩ := Prod.mk.inj (Except.ok.inj h)
        trivial
      | _ => cases h
  | _ => cases h

/-- The name of a type parameter or a type variable is shown by every spelling, and ends at a
character that is in no token. -/
theorem Reads.exists_identifier {text : List Char} (h : Reads s text pieces)
    (inside : s.mode.InIdentifier) :
    ∃ letters stop, isTokenChar stop = false ∧ letters <+: text ∧
      ∀ start suffix, ∃ rest, spelled start suffix s.around pieces = letters ++ stop :: rest := by
  induction h with
  | @done s may =>
    obtain ⟨part, enclosing, mode⟩ := s
    cases mode with
    | typeParameter | «variable» => cases may
    | _ => exact inside.elim
  | @char s next c rest pieces _ stepped around _ ih =>
    rw [around] at ih
    cases hc : isTokenChar c with
    | false => exact ⟨[], c, hc, List.nil_prefix, fun start suffix => ⟨_, rfl⟩⟩
    | true =>
      obtain ⟨letters, stop, ends, begins, shown⟩ := ih (inIdentifier_of_step inside hc (stepped 0))
      refine ⟨c :: letters, stop, ends, List.cons_prefix_cons.2 ⟨rfl, begins⟩,
        fun start suffix => ?_⟩
      obtain ⟨more, same⟩ := shown start suffix
      exact ⟨more, by rw [spelled, same, List.cons_append]⟩
  | @close s next name rest pieces outside stepped around _ _ =>
    obtain ⟨part, enclosing, mode⟩ := s
    cases mode with
    | typeParameter | «variable» =>
      have keeps := keeps_of_step (stepped 0) (by simp) (by simp)
      exact absurd keeps.pieces (by simp)
    | _ => exact inside.elim
  | name => exact inside.elim

end

/-! ### Along a signature -/

theorem isTokenChar_of_endsName {c : Char} (h : endsName c = true) : isTokenChar c = false := by
  have stops : c = '<' ∨ c = '.' ∨ c = ';' := by simpa [endsName, or_assoc] using h
  rcases stops with rfl | rfl | rfl <;> decide

section

variable {m : Markers} (hv : m.opening.head? = some 'v')
include hv

/-- A character outside of names stays, whatever is shown for the names behind it. -/
theorem restoreText_char {s next : State} {c : Char} {place : Nat} {rest : List Char}
    {pieces : List Piece} (outside : ∀ outer reversed, s.mode ≠ .segment outer reversed)
    (stepped : step s c place = .ok (next, [.char c])) (behind : Reads next rest pieces)
    (clean : ¬ m.opening <:+: c :: rest) (start : String → List Char)
    (suffix : String → String → List Char) :
    m.restoreText (c :: spelled start suffix next.around pieces) =
      c :: m.restoreText (spelled start suffix next.around pieces) := by
  by_cases first : c = 'v'
  · subst first
    obtain ⟨letters, stop, ends, ⟨more', rfl⟩, shown⟩ :=
      behind.exists_identifier (inIdentifier_of_step_v outside stepped)
    obtain ⟨more, same⟩ := shown start suffix
    refine m.restoreText_cons fun opens => ?_
    rw [same, ← List.cons_append] at opens
    have inside := prefix_of_notMem (m.not_mem_opening ends) opens
    exact clean (inside.isInfix.trans ⟨[], more', by simp⟩)
  · exact restoreText_cons_of_ne hv first _

/-- **Restoring turns one spelling into another** if it turns what the one shows for each class into
what the other one shows. -/
theorem Reads.restoreText_spelled {s : State} {text : List Char} {pieces : List Piece}
    (h : Reads s text pieces) (clean : ¬ m.opening <:+: text) {start start' : String → List Char}
    {suffix suffix' : String → String → List Char}
    (first : ∀ name ∈ starts pieces, m.Reverts (start name) (start' name))
    (later : ∀ link ∈ links s.around pieces,
      m.Reverts (suffix link.1 link.2) (suffix' link.1 link.2)) :
    m.restoreText (spelled start suffix s.around pieces) =
      spelled start' suffix' s.around pieces := by
  induction h with
  | done => exact m.restoreText_nil
  | @char s next c rest pieces outside stepped around behind ih =>
    have cleaner : ¬ m.opening <:+: rest := fun h => clean (h.trans (List.suffix_cons c rest).isInfix)
    have stays := restoreText_char hv outside (stepped 0) behind clean start suffix
    rw [spelled, spelled, ← around, stays, ih cleaner first (around ▸ later)]
  | @close s next name rest pieces _ _ around _ ih =>
    have cleaner : ¬ m.opening <:+: rest :=
      fun h => clean (h.trans (List.suffix_cons ';' rest).isInfix)
    rw [around, links, List.tail_cons] at later
    rw [around, spelled, spelled, List.tail_cons,
      m.restoreText_cons_of_notMem (m.not_mem_opening (by decide)), ih cleaner first later]
  | @name part enclosing outer simple stop rest pieces _ _ ends _ ih =>
    have cleaner : ¬ m.opening <:+: rest := fun h => clean
      (h.trans ((List.suffix_cons stop rest).trans (List.suffix_append simple _)).isInfix)
    rw [starts_name, List.forall_mem_append] at first
    rw [links_name part ends, List.forall_mem_append] at later
    have shows : m.Reverts (segmentText start suffix outer (nestedName outer simple))
        (segmentText start' suffix' outer (nestedName outer simple)) := by
      cases outer with
      | none => exact first.1 _ List.mem_cons_self
      | some outer => exact later.1 _ List.mem_cons_self
    rw [spelled_name part ends, spelled_name part ends,
      shows.before (m.not_mem_opening (isTokenChar_of_endsName ends)),
      ih cleaner first.2 later.2]

end

/-! ### What a token shows behind a point -/

/-- The part of a class name behind its packages. -/
def withoutPackages (name : String) : List Char := behindLast (· == '/') name.toList

/-- **Behind a point, the token of a class shows the token of its last part**, whatever stands for
the class in front of it. -/
theorem simpleName_encode {m : Markers} (outer : String) {nested token : String}
    (h : m.encode nested true = .ok token) :
    simpleName outer token = m.encodeText true (withoutPackages nested) := by
  have flat {name : List Char} (fresh : ∀ c ∈ name, (c == '/') = false) :
      ∀ c ∈ m.encodeText true name, isNameSeparator c = false := by
    have single : '/' ∉ name := fun slash => absurd (fresh '/' slash) (by decide)
    intro c hc
    rw [encodeText_true_of_notMem m single] at hc
    rcases m.mem_encodeText hc with letter | rfl
    · rw [← Bool.not_eq_true, isNameSeparator, Bool.or_eq_true, beq_iff_eq, beq_iff_eq]
      rintro (rfl | rfl)
      · cases letter
      · cases letter
    · exact absurd hc (slash_notMem_encode m name)
  have dollar : '$' ∉ token.toList := notMem_encode (by decide) (by decide) h
  obtain ⟨-, rfl⟩ := encode_eq_ok_iff.1 h
  rw [String.toList_ofList] at dollar
  have unshared : (outer.toList ++ ['$']).isPrefixOf? (m.encodeText true nested.toList) = none := by
    rw [isPrefixOf?_eq_none_iff]
    exact fun shared => dollar (shared.mem (by simp))
  rw [simpleName, String.toList_ofList, unshared]
  dsimp only
  rw [lastSegment_eq, withoutPackages]
  rcases exists_last_stop (· == '/') nested.toList with
    fresh | ⟨packages, c, last, split, slash, fresh⟩
  · rw [behindLast_of_forall fresh, behindLast_of_forall (flat fresh)]
  · obtain rfl : c = '/' := by simpa using slash
    have part : behindLast (· == '/') (packages ++ '/' :: last) = last := by
      rw [behindLast_append_cons (by decide), behindLast_of_forall fresh]
    rw [split, part, encodeText_true_append, behindLast_append_cons (by decide),
      behindLast_of_forall (flat fresh)]

/-! ### Suffixes that come back -/

theorem toList_nestedName (outer : String) (simple : List Char) :
    (nestedName (some outer) simple).toList = outer.toList ++ '$' :: simple := by
  simp [nestedName]

theorem lastSegment_nestedName (outer : String) (simple : List Char) :
    lastSegment (nestedName (some outer) simple).toList = lastSegment simple := by
  rw [toList_nestedName, lastSegment_eq, behindLast_append_cons (by decide), lastSegment_eq]

/-- The last part of a nested class shows more than its suffix, or less. -/
theorem withoutPackages_nestedName_ne (outer : String) (simple : List Char) :
    withoutPackages (nestedName (some outer) simple) ≠ simple := by
  intro same
  have fresh := (behindLast_spec (· == '/') (nestedName (some outer) simple).toList).2
  rw [← withoutPackages, same] at fresh
  have longer (front : List Char) (hf : ∀ c ∈ front, (c == '/') = false) :
      behindLast (· == '/') (front ++ '$' :: simple) = front ++ '$' :: simple :=
    behindLast_of_forall
      (List.forall_mem_append.2 ⟨hf, List.forall_mem_cons.2 ⟨by decide, fresh⟩⟩)
  obtain ⟨front, shown⟩ : ∃ front,
      withoutPackages (nestedName (some outer) simple) = front ++ '$' :: simple := by
    rw [withoutPackages, toList_nestedName]
    rcases exists_last_stop (· == '/') outer.toList with
      flat | ⟨packages, c, last, split, slash, flat⟩
    · exact ⟨_, longer _ flat⟩
    · obtain rfl : c = '/' := by simpa using slash
      refine ⟨last, ?_⟩
      rw [split, List.append_assoc, List.cons_append, behindLast_append_cons (by decide),
        longer last flat]
  have lengths := congrArg List.length (shown.symm.trans same)
  simp at lengths
  omega

theorem lastSegment_eq_self_iff {name : List Char} :
    lastSegment name = name ↔ ∀ c ∈ name, isNameSeparator c = false := by
  constructor
  · intro same
    have fresh := (behindLast_spec isNameSeparator name).2
    rwa [← lastSegment_eq, same] at fresh
  · exact behindLast_of_forall

/-! ### Generated names -/

/-- What is shown for a class behind a point once its signature is restored. -/
def restoredSuffix (symbols : SymbolSource) (outer nested : String) : List Char :=
  if symbols.isPrimary nested then withoutPackages nested
  else if symbols.isPrimary outer then lastSegment nested.toList
  else simpleName outer nested

end Signature

namespace Renamer

open Markers Signature

variable {m : Markers} {symbols : SymbolSource} {reserved : List String} {src : Option SymbolSource}

/-- A class is answered by its token if it is primary, and keeps its name otherwise. -/
theorem outcome_generated_className {name s : String}
    (h : ((generated symbols m reserved src).className name).outcome = .ok s) :
    (symbols.isPrimary name = true ∧ m.encode name true = .ok s) ∨
      (symbols.isPrimary name = false ∧ m.isEncoded name = false ∧ s = name) := by
  rw [className, outcome_replace] at h
  obtain ⟨found, looked, rfl⟩ := map_eq_ok_iff.1 h
  rcases Mapping.tokenIn_eq_ok_iff.1 looked with ⟨primary, token, encoded, rfl⟩ | ⟨foreign, free, rfl⟩
  · exact Or.inl ⟨primary, encoded⟩
  · exact Or.inr ⟨foreign, free, rfl⟩

/-- A nested class with a token shows the token of its last part. One without a token is shown as
`restoredSuffix` says. -/
theorem simpleName_answers {outer nested outer' nested' : String}
    (houter : ((generated symbols m reserved src).className outer).outcome = .ok outer')
    (hnested : ((generated symbols m reserved src).className nested).outcome = .ok nested') :
    (symbols.isPrimary nested = true ∧
        simpleName outer' nested' = m.encodeText true (withoutPackages nested)) ∨
      (symbols.isPrimary nested = false ∧
        simpleName outer' nested' = restoredSuffix symbols outer nested) := by
  rcases outcome_generated_className hnested with ⟨primary, encoded⟩ | ⟨foreign, free, rfl⟩
  · exact Or.inl ⟨primary, simpleName_encode outer' encoded⟩
  · refine Or.inr ⟨foreign, ?_⟩
    rw [restoredSuffix, if_neg (by simp [foreign])]
    rcases outcome_generated_className houter with ⟨primary, encoded⟩ | ⟨foreign', _, rfl⟩
    -- The token in front of the point is no beginning of a name without a token.
    · have unshared : (outer'.toList ++ ['$']).isPrefixOf? nested'.toList = none := by
        rw [isPrefixOf?_eq_none_iff]
        intro shared
        have opens := isEncoded_of_encode encoded
        rw [isEncoded, List.isPrefixOf_iff_prefix] at opens
        rw [isEncoded, ← Bool.not_eq_true, List.isPrefixOf_iff_prefix] at free
        exact free (opens.trans ((List.prefix_append _ _).trans shared))
      rw [if_pos primary, simpleName, unshared]
    · rw [if_neg (by simp [foreign'])]

theorem restoredSuffix_suffix {outer : String} {simple : List Char}
    (foreign : symbols.isPrimary (nestedName (some outer) simple) = false) :
    restoredSuffix symbols outer (nestedName (some outer) simple) <:+ simple := by
  rw [restoredSuffix, if_neg (by simp [foreign])]
  split
  · rw [lastSegment_nestedName]
    exact (behindLast_spec isNameSeparator simple).1
  · exact (simpleName_nested outer simple).symm ▸ List.suffix_refl simple

/-- What is written for a class behind a point is restored to what `restoredSuffix` says. -/
theorem reverts_suffix {outer outer' nested' : String} {simple : List Char}
    (houter : ((generated symbols m reserved src).className outer).outcome = .ok outer')
    (hnested : ((generated symbols m reserved src).className
      (nestedName (some outer) simple)).outcome = .ok nested')
    (clean : ¬ m.opening <:+: simple) :
    m.Reverts (simpleName outer' nested')
      (restoredSuffix symbols outer (nestedName (some outer) simple)) := by
  rcases simpleName_answers houter hnested with ⟨primary, shown⟩ | ⟨foreign, shown⟩
  · rw [shown, restoredSuffix, if_pos primary]
    exact reverts_encodeText true _
  · rw [shown]
    exact reverts_self fun h => clean (h.trans (restoredSuffix_suffix foreign).isInfix)

/-- A suffix comes back as it was exactly if its class got no token, and if it has one segment in
case the class in front of it got one. -/
theorem restoredSuffix_eq_iff (outer : String) (simple : List Char) :
    restoredSuffix symbols outer (nestedName (some outer) simple) = simple ↔
      symbols.isPrimary (nestedName (some outer) simple) = false ∧
        (symbols.isPrimary outer = true → ∀ c ∈ simple, isNameSeparator c = false) := by
  unfold restoredSuffix
  split
  · next primary => simp [primary, withoutPackages_nestedName_ne]
  · next foreign =>
    split
    · next primary =>
      rw [lastSegment_nestedName, lastSegment_eq_self_iff]
      simp [foreign, primary]
    · next foreign' => simp [foreign, foreign', simpleName_nested]

theorem mem_restoredSuffix {outer nested : String} {c : Char}
    (h : c ∈ restoredSuffix symbols outer nested) : c ∈ nested.toList := by
  unfold restoredSuffix at h
  split at h
  · exact (behindLast_spec _ nested.toList).1.mem h
  · split at h
    · exact (behindLast_spec _ nested.toList).1.mem h
    · exact mem_simpleName h

/-- A renamed signature is a spelling of the pieces of the old one by answers. -/
theorem toList_of_rename_signature {r : Renamer} {signature text : String}
    (renamed : (r.rename (.signature signature)).outcome = .ok text) :
    (∀ name ∈ pieceNames (scan signature.toList).pieces,
      (r.className name).outcome = .ok (r.answer (.class name))) ∧
      text.toList = spelled (fun name => (r.answer (.class name)).toList)
        (fun outer nested => simpleName (r.answer (.class outer)) (r.answer (.class nested)))
        [] (scan signature.toList).pieces := by
  have sound := fault_of_rename renamed
  obtain ⟨answered, rfl⟩ :=
    ((asks_rename r.agrees_className sound).outcome r.agrees_className).1 renamed
  rw [String.toList_ofList]
  exact ⟨answered, (reads_scan sound).renamedPieces_eq _⟩

/-- Behind a point, both classes were answered. -/
theorem answered_of_mem_links {r : Renamer} {signature text : String}
    (renamed : (r.rename (.signature signature)).outcome = .ok text) {link : String × String}
    (hl : link ∈ links [] (scan signature.toList).pieces) :
    (r.className link.1).outcome = .ok (r.answer (.class link.1)) ∧
      (r.className link.2).outcome = .ok (r.answer (.class link.2)) := by
  obtain ⟨answered, -⟩ := toList_of_rename_signature renamed
  obtain ⟨inner, outer, -⟩ := (reads_scan (fault_of_rename renamed)).mem_links hl
  exact ⟨answered _ (outer.resolve_left List.not_mem_nil), answered _ inner⟩

/-- **What a signature with generated names is restored to.** -/
theorem restore_signature (hv : m.opening.head? = some 'v') {signature text : String}
    (clean : ¬ m.opening <:+: signature.toList)
    (renamed : ((generated symbols m reserved src).rename (.signature signature)).outcome =
      .ok text) :
    (m.restore text).toList =
      spelled String.toList (restoredSuffix symbols) [] (scan signature.toList).pieces := by
  obtain ⟨answered, written⟩ := toList_of_rename_signature renamed
  have reads := reads_scan (fault_of_rename renamed)
  rw [m.toList_restore, written]
  refine reads.restoreText_spelled hv clean ?_ ?_
  · intro name hn
    obtain ⟨named, inside⟩ := reads.mem_starts hn
    exact reverts_of_eq_or_encode (eq_or_encode_of_className (answered name named))
      fun h => clean (h.trans inside)
  · intro link hl
    obtain ⟨houter, hnested⟩ := answered_of_mem_links renamed hl
    obtain ⟨-, -, simple, nests, -, -, inside⟩ := reads.mem_links hl
    rw [nests] at hnested ⊢
    exact reverts_suffix houter hnested fun h => clean (h.trans inside)

/-- A signature is spelled as it was exactly if each of its suffixes comes back as it was. -/
theorem spelled_restoredSuffix_eq_iff {text : List Char} {pieces : List Piece}
    (reads : Reads .initial text pieces) :
    spelled String.toList (restoredSuffix symbols) [] pieces = text ↔
      ∀ link ∈ links [] pieces, symbols.isPrimary link.2 = false ∧
        (symbols.isPrimary link.1 = true →
          ∀ c ∈ simpleName link.1 link.2, isNameSeparator c = false) := by
  have letters (link : String × String) (hl : link ∈ links [] pieces) :
      ∀ c ∈ link.2.toList, endsName c = false :=
    (reads.isName (fun _ h => absurd h List.not_mem_nil) _ (reads.mem_links hl).1).2
  have apart : spelled String.toList (restoredSuffix symbols) [] pieces =
        spelled String.toList simpleName [] pieces ↔
      ∀ link ∈ links [] pieces, restoredSuffix symbols link.1 link.2 = simpleName link.1 link.2 :=
    reads.spelled_inj fun link hl => ⟨fun c hc => letters link hl c (mem_restoredSuffix hc),
      fun c hc => letters link hl c (mem_simpleName hc)⟩
  have original : spelled String.toList simpleName [] pieces = text := reads.spelled_eq
  rw [← original, apart]
  refine forall₂_congr fun link hl => ?_
  obtain ⟨-, -, simple, nests, -⟩ := reads.mem_links hl
  rw [nests, simpleName_nested, restoredSuffix_eq_iff]

theorem isName_of_encode {name token : String} (h : m.encode name true = .ok token) :
    IsName token := by
  constructor
  · rintro rfl
    have opens := isEncoded_of_encode h
    rw [isEncoded, List.isPrefixOf_iff_prefix] at opens
    exact m.wellFormed.opening_ne_nil (List.prefix_nil.1 opens)
  · intro c hc
    rw [← Bool.not_eq_true]
    intro ends
    have slash : c ≠ '/' := by
      rintro rfl
      cases ends
    exact notMem_encode (isTokenChar_of_endsName ends) slash h hc

/-- A class in a signature can be shown under its new name. -/
theorem isName_answer {name : String} (named : IsName name)
    (answered : ((generated symbols m reserved src).className name).outcome =
      .ok ((generated symbols m reserved src).answer (.class name))) :
    IsName ((generated symbols m reserved src).answer (.class name)) := by
  rcases eq_or_encode_of_className answered with same | encoded
  · rwa [same]
  · exact isName_of_encode encoded

/-- A suffix that shows something still does so once it is restored, unless its class has a token
and a name that ends in `/`. -/
theorem restoredSuffix_ne_nil_iff {outer nested outer' nested' : String}
    (houter : ((generated symbols m reserved src).className outer).outcome = .ok outer')
    (hnested : ((generated symbols m reserved src).className nested).outcome = .ok nested')
    (shown : simpleName outer' nested' ≠ []) :
    restoredSuffix symbols outer nested ≠ [] ↔
      (symbols.isPrimary nested = true → withoutPackages nested ≠ []) := by
  rcases simpleName_answers houter hnested with ⟨primary, -⟩ | ⟨foreign, same⟩
  · rw [restoredSuffix, if_pos primary]
    simp [primary]
  · simp [← same, shown, foreign]

/-- Where the new signature is accepted, so is what it is restored to, unless the name of a nested
class with a token ends in `/`. -/
theorem accepted_restored_iff {signature text : String}
    (renamed : ((generated symbols m reserved src).rename (.signature signature)).outcome =
      .ok text) (sound : (scan text.toList).fault = none) :
    (scan (spelled String.toList (restoredSuffix symbols) []
        (scan signature.toList).pieces)).fault = none ↔
      ∀ link ∈ links [] (scan signature.toList).pieces,
        symbols.isPrimary link.2 = true → withoutPackages link.2 ≠ [] := by
  obtain ⟨answered, written⟩ := toList_of_rename_signature renamed
  have reads := reads_scan (fault_of_rename renamed)
  have names := reads.isName fun _ h => absurd h List.not_mem_nil
  obtain ⟨first, later⟩ := isName_of_mem_links reads fun name hn =>
    isName_answer (names name hn) (answered name hn)
  rw [written] at sound
  have shown := (reads.sound_spelled_iff rfl first (fun link hl => (later link hl).2) 0).1 sound
  obtain ⟨first', later'⟩ := isName_of_mem_links (f := id) reads names
  have letters (link : String × String)
      (hl : link ∈ links [] (scan signature.toList).pieces) :
      ∀ c ∈ restoredSuffix symbols link.1 link.2, endsName c = false :=
    fun c hc => (names _ (reads.mem_links hl).1).2 c (mem_restoredSuffix hc)
  refine (reads.sound_spelled_iff rfl first' letters 0).trans (forall₂_congr fun link hl => ?_)
  obtain ⟨houter, hnested⟩ := answered_of_mem_links renamed hl
  exact restoredSuffix_ne_nil_iff houter hnested (shown link hl)

/-- A signature comes back if all its classes keep their names. -/
theorem rename_logging_id {text : String} (sound : (scan text.toList).fault = none) :
    (Signature.rename (logging id) text).outcome = .ok text := by
  rw [(rename_logging sound).1, renamedPieces_scan (g := id) sound fun _ _ => rfl,
    String.ofList_toList]

/-- **Generated names in a signature are restored up to suffixes.** Restoring the new signature gives
the old one with other suffixes. A nested class with a token is shown by all of its name behind the
packages, and one that is nested in a class with a token by its last segment. So the old signature
comes back exactly if no nested class has a token, and no suffix behind a class with a token has more
than one segment. Where the new signature is a signature itself, so is what comes back, unless the
name of a nested class with a token ends in `/`. -/
theorem generated_signature_restored (front : Markers.Salt 7) (back : Markers.Salt 5)
    (symbols : SymbolSource) (reserved : List String) (src : Option SymbolSource)
    {signature text : String} (clean : ¬ (salted front back).opening <:+: signature.toList)
    (renamed : ((generated symbols (salted front back) reserved src).rename
      (.signature signature)).outcome = .ok text) :
    let nested := links [] (scan signature.toList).pieces
    let restored := (salted front back).restore text
    restored = String.ofList
        (spelled String.toList (restoredSuffix symbols) [] (scan signature.toList).pieces) ∧
      (restored = signature ↔ ∀ link ∈ nested, symbols.isPrimary link.2 = false ∧
        (symbols.isPrimary link.1 = true →
          ∀ c ∈ simpleName link.1 link.2, isNameSeparator c = false)) ∧
      ((Signature.rename (logging id) text).outcome = .ok text →
        ((Signature.rename (logging id) restored).outcome = .ok restored ↔
          ∀ link ∈ nested, symbols.isPrimary link.2 = true → withoutPackages link.2 ≠ [])) := by
  intro nested restored
  have written : restored.toList = _ := restore_signature rfl clean renamed
  have reads := reads_scan (fault_of_rename renamed)
  have again_iff : (Signature.rename (logging id) restored).outcome = .ok restored ↔
      (scan restored.toList).fault = none := ⟨fault_of_rename, rename_logging_id⟩
  refine ⟨by rw [← written, String.ofList_toList], ?_, fun accepted => ?_⟩
  · rw [← String.toList_inj, written]
    exact spelled_restoredSuffix_eq_iff reads
  · rw [again_iff, written]
    exact accepted_restored_iff renamed (fault_of_rename accepted)

/-- A nested class with a token, and one without a token behind it. The type variable begins like an
opening marker. -/
theorem generated_signature_restored_nested :
    let w : Workspace :=
      [⟨"a/Outer", .empty, [], []⟩, ⟨"a/Outer$Inner", .empty, [], []⟩].foldl .addPrimary {}
    let signature := "La/Outer<Tveil;>.Inner.Deep;"
    let r := generated w.symbols .sample defaultReserved none
    ¬ Markers.sample.opening <:+: signature.toList ∧
      ∃ text, (r.rename (.signature signature)).outcome = .ok text ∧
        (Signature.rename (logging id) text).outcome = .ok text ∧
        Markers.sample.restore text = "La/Outer<Tveil;>.Outer$Inner.Deep;" := by
  intro w signature r
  have clean : ¬ Markers.sample.opening <:+: signature.toList := by decide +kernel
  let text := "Lveil_Ab3xY7q_a__Zk2Pw_mask/veil_Ab3xY7q_Outer__Zk2Pw_mask<Tveil;>." ++
    "veil_Ab3xY7q_Outer_0024Inner__Zk2Pw_mask.Deep;"
  have renamed : (r.rename (.signature signature)).outcome.toOption = some text := by
    decide +kernel
  have sound : (scan text.toList).fault = none := by decide +kernel
  have restored := (generated_signature_restored _ _ w.symbols defaultReserved none clean
    (toOption_eq_some_iff.1 renamed)).1
  refine ⟨clean, text, toOption_eq_some_iff.1 renamed, rename_logging_id sound, ?_⟩
  refine restored.trans ?_
  decide +kernel

/-- A nested class that gets a token along with the class around it does not come back. -/
theorem nested_token_not_restored :
    let w : Workspace :=
      [⟨"a/Outer", .empty, [], []⟩, ⟨"a/Outer$Inner", .empty, [], []⟩].foldl .addPrimary {}
    let signature := "La/Outer.Inner;"
    let r := generated w.symbols .sample defaultReserved none
    ¬ Markers.sample.opening <:+: signature.toList ∧
      ∃ text, (r.rename (.signature signature)).outcome = .ok text ∧
        Markers.sample.restore text = "La/Outer.Outer$Inner;" ∧
        Markers.sample.restore text ≠ signature := by
  intro w signature r
  have clean : ¬ Markers.sample.opening <:+: signature.toList := by decide +kernel
  let text := "Lveil_Ab3xY7q_a__Zk2Pw_mask/veil_Ab3xY7q_Outer__Zk2Pw_mask." ++
    "veil_Ab3xY7q_Outer_0024Inner__Zk2Pw_mask;"
  have renamed : (r.rename (.signature signature)).outcome.toOption = some text := by
    decide +kernel
  have written := restore_signature rfl clean (toOption_eq_some_iff.1 renamed)
  have restored : Markers.sample.restore text = "La/Outer.Outer$Inner;" := by
    rw [← String.toList_inj, written]
    decide +kernel
  refine ⟨clean, text, toOption_eq_some_iff.1 renamed, restored, ?_⟩
  rw [restored]
  decide

end Renamer

end Pseudonym
