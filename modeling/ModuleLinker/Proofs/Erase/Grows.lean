import ModuleLinker.Erase
import ModuleLinker.Proofs.Erase.Balance

/-!
# How the edits of a walk grow

All that a walk ever does to its edits (`Grows`): it overwrites tokens, it replaces an enum, it puts
assignments behind the brace of a constructor, and it takes over the edits of a substitution. Whatever
these four keep, a walk keeps (`walk_grows`). The tokens that are overwritten close the brackets that they
open, unless they belong to one of the few constructs whose end is looked for without a view to brackets
(`RunsAhead`).
-/

set_option autoImplicit false

namespace ModuleLinker.Erase

namespace Program

variable (p : Program)

/-- Whether a name is one that a parameter list with modifiers may declare as a property. -/
def IsProperty (name : String) : Prop :=
  (∃ j, p.isOneOf j parameterModifiers = true) ∧ ∃ j, p.bindsAt j = true ∧ name = p.text j

/-- The position of the word enum in the enum that starts at a position. -/
def enumKeyword (i : Nat) : Nat := if p.isWord i "const" then i + 1 else i

/-- The stretches of constructs whose end is looked for without a view to the brackets around them. -/
inductive RunsAhead : Nat → Nat → Prop
  /-- An interface, which goes on to the next brace and the partner of it. -/
  | interface {start i brace : Nat} : p.text i = "interface" → p.bodyAhead i (i + 2) = .ok brace →
      RunsAhead start (p.close brace + 1)
  /-- The interfaces that a class implements, up to the next brace. -/
  | implements {i brace : Nat} : p.isWord i "implements" = true → p.bodyAhead i i = .ok brace →
      RunsAhead i brace
  /-- An ambient declaration. -/
  | declare {start i : Nat} : p.text i = "declare" →
      RunsAhead start (p.declarationEnd (i + 1) (i + 1))
  /-- An import or export of types, which goes on to the next string, semicolon or brace list. -/
  | moduleStatement {i : Nat} : p.isWord (i + 1) "type" = true →
      RunsAhead i (p.moduleStatementEnd (i + 1))
  /-- An element of an import or export, which goes on to the next comma. -/
  | element {limit k last : Nat} : p.isWord k "type" = true →
      last = (if p.elementEnd limit k < limit then p.elementEnd limit k + 1 else p.elementEnd limit k) →
      RunsAhead k last
  /-- A field that only states a type and has a value all the same. -/
  | field {start i last : Nat} : (∃ m < i, p.text m ∈ ["abstract", "declare"]) →
      p.isPunct i "=" = true → RunsAhead start last

/-- Whether a construct may stand from one position up to another: it closes its brackets or runs ahead. -/
def IsRange (first last : Nat) : Prop := p.Balanced first last ∨ p.RunsAhead first last

/-- The changes that a walk makes to its edits. -/
inductive Grows (hole : Hole → Except Failure Edits) : Edits → Edits → Prop
  /-- Tokens are overwritten, from one to another. -/
  | blank {edits : Edits} {first last : Nat} {a z : Token} (range : p.IsRange first last)
      (before : first < last) (opens : p.tokens[first]? = some a) (ends : p.tokens[last - 1]? = some z) :
      Grows hole edits (edits.absorb ⟨a.start, z.stop, none⟩)
  /-- An enum is replaced. -/
  | replace {i : Nat} {s s' : State} (isEnum : p.text (p.enumKeyword i) = "enum")
      (done : p.enumeration i s = .ok s') : Grows hole s.edits s'.edits
  /-- Properties are assigned behind a brace. -/
  | assign {edits : Edits} {i : Nat} {properties : List String}
      (brace : p.isPunct i openBrace = true) (some : properties ≠ [])
      (modified : ∀ name ∈ properties, p.IsProperty name) :
      Grows hole edits
        (⟨p.offset i + 1, p.offset i + 1, .some (assignments properties)⟩ :: edits)
  /-- The edits of a substitution are taken over. -/
  | adopt {edits inner : Edits} {t : Token} {h : Hole} (token : t ∈ p.tokens) (inside : h ∈ t.holes)
      (done : hole h = .ok inner) : Grows hole edits (edits.adopt inner h.start)
  | refl (edits : Edits) : Grows hole edits edits
  | trans {edits edits' edits'' : Edits} (first : Grows hole edits edits')
      (second : Grows hole edits' edits'') : Grows hole edits edits''

end Program

/-- Whether the walks of a walker make no other changes. -/
def Walker.Follows (w : Walker) (p : Program) : Prop :=
  ∀ limit stop s s', w.walk limit stop s = .ok s' → p.Grows w.hole s.edits s'.edits

namespace Program

section Steps

variable {p : Program} {hole : Hole → Except Failure Edits} {w : Walker} {s s' : State}

theorem grows_blank {first last : Nat} (range : p.IsRange first last) (s : State) :
    p.Grows hole s.edits (p.blank s first last).edits := by
  unfold blank
  split
  case isTrue before =>
    split
    case h_1 opens ends => exact .blank range before opens ends
    case h_2 => exact .refl _
  case isFalse => exact .refl _

theorem grows_blankTo {last : Nat} (range : p.IsRange s.pos last) :
    p.Grows hole s.edits (p.blankTo s last).edits :=
  grows_blank range s

theorem grows_blankMarker (s : State) (text : String)
    (other : text ∉ ["(", ")", "[", "]", openBrace, closeBrace]) :
    p.Grows hole s.edits (p.blankMarker s text).edits := by
  unfold blankMarker
  split
  case isTrue here => exact grows_blankTo (.inl (balanced_of_isPunct here other))
  case isFalse => exact .refl _

theorem grows_skipPunct (s : State) (text : String) :
    p.Grows hole s.edits (p.skipPunct s text).edits := by
  unfold skipPunct
  split <;> exact .refl _

/-- A construct is overwritten together with a punctuator after it. -/
theorem grows_blank_skipPunct (s : State) (text : String) {first last : Nat}
    (range : p.IsRange first last) :
    p.Grows hole s.edits (p.blank (p.skipPunct s text) first last).edits :=
  (grows_skipPunct s text).trans (grows_blank range _)

theorem grows_annotated (done : p.blankAnnotation s = .ok s') :
    p.Grows hole s.edits s'.edits := by
  have range := balanced_annotated done
  unfold blankAnnotation at done
  split at done
  · obtain ⟨j, -, done⟩ := bind_eq_ok.mp done
    cases done
    exact grows_blankTo (.inl range)
  · cases done
    exact .refl _

theorem grows_blankTypeParameters (done : p.blankTypeParameters s = .ok s') :
    p.Grows hole s.edits s'.edits := by
  have range := balanced_blankTypeParameters done
  unfold blankTypeParameters at done
  split at done
  · obtain ⟨j, -, done⟩ := bind_eq_ok.mp done
    cases done
    exact grows_blankTo (.inl range)
  · cases done
    exact .refl _

theorem grows_walkBracket (follows : w.Follows p) (done : p.walkBracket w s = .ok s') :
    p.Grows w.hole s.edits s'.edits := by
  obtain ⟨inside, walked, done⟩ := bind_eq_ok.mp done
  cases done
  have grows := follows _ _ _ _ walked
  exact grows

theorem grows_walkValue (follows : w.Follows p) {limit : Nat} {stops : List String}
    (done : p.walkValue w limit stops s = .ok s') : p.Grows w.hole s.edits s'.edits := by
  unfold walkValue at done
  split at done
  · have grows := follows _ _ _ _ done
    exact grows
  · cases done
    exact .refl _

/-! ## Parameters -/

theorem grows_blankParameterModifiers (p : Program) (hole : Hole → Except Failure Edits) (s : State) :
    p.Grows hole s.edits (p.blankParameterModifiers s).edits ∧
      (s.pos < (p.blankParameterModifiers s).pos → p.isOneOf s.pos parameterModifiers = true) := by
  fun_induction blankParameterModifiers p s with
  | case1 s here inside ih =>
    exact ⟨(grows_blankTo (.inl (balanced_of_isOneOf here.1))).trans ih.1, fun _ => here.1⟩
  | case2 s here => exact ⟨.refl _, fun less => absurd less (Nat.lt_irrefl _)⟩

theorem grows_walkBinding (follows : w.Follows p) (done : p.walkBinding w s = .ok s') :
    p.Grows w.hole s.edits s'.edits := by
  unfold walkBinding at done
  split at done
  · exact grows_walkBracket follows done
  · split at done
    · cases done
      exact .refl _
    · cases done

/-- Only a name or a pattern is bound. -/
theorem bindsAt_of_walkBinding (done : p.walkBinding w s = .ok s') : p.bindsAt s.pos = true := by
  unfold walkBinding at done
  unfold bindsAt
  split at done
  case isTrue pattern =>
    rw [Bool.or_assoc, pattern, Bool.or_true]
  case isFalse =>
    split at done
    case isTrue name => rw [name, Bool.true_or, Bool.true_or]
    case isFalse => cases done

theorem grows_parameter (follows : w.Follows p) {close : Nat} {property : Option String}
    (done : p.parameter w close s = .ok (s', property)) :
    p.Grows w.hole s.edits s'.edits ∧ ∀ name, property = some name → p.IsProperty name := by
  unfold parameter at done
  split at done
  · cases done
  · obtain ⟨grows, modified⟩ := grows_blankParameterModifiers p w.hole s
    dsimp only at done
    have named {i : Nat} (binds : p.bindsAt i = true) (name : String)
        (same : (if s.pos < (p.blankParameterModifiers s).pos then some (p.text i) else none) =
          some name) : p.IsProperty name := by
      split at same
      · exact ⟨⟨_, modified ‹_›⟩, i, binds, (Option.some.inj same).symm⟩
      · cases same
    replace grows := grows.trans (grows_skipPunct _ "...")
    split at done
    case isTrue this' =>
      rw [Bool.and_eq_true] at this'
      obtain ⟨j, type, done⟩ := bind_eq_ok.mp done
      cases done
      -- A parameter that states the type of `this` goes from its first modifier to its comma.
      have front := (balanced_blankParameterModifiers p s).trans
        (balanced_skipPunct (p.blankParameterModifiers s) "..." (by decide))
      have typed := (balanced_of_isWord this'.1).trans
        ((balanced_of_isPunct this'.2 (by decide)).trans (balanced_of_expectType type))
      have ended : p.Balanced j (p.skipPunct (State.goto _ j) ",").pos :=
        balanced_skipPunct ((p.skipPunct (p.blankParameterModifiers s) "...").goto j) _ (by decide)
      have range := front.trans (typed.trans ended)
      exact ⟨grows.trans (grows_blank_skipPunct (State.goto _ j) _ (.inl range)), fun name same => by cases same⟩
    case isFalse =>
      obtain ⟨bound, walked, done⟩ := bind_eq_ok.mp done
      obtain ⟨typed, blanked, done⟩ := bind_eq_ok.mp done
      obtain ⟨valued, value, done⟩ := bind_eq_ok.mp done
      have all := (((grows.trans (grows_walkBinding follows walked)).trans
        (grows_blankMarker bound "?" (by decide))).trans (grows_annotated blanked)).trans
          (grows_walkValue follows value)
      split at done
      · cases done
        exact ⟨all, named (bindsAt_of_walkBinding walked)⟩
      · split at done
        · cases done
          exact ⟨all, named (bindsAt_of_walkBinding walked)⟩
        · cases done

/-- The edits of a parameter list, and the properties that its parameters declare. -/
theorem grows_parametersTo (follows : w.Follows p) {close : Nat} {properties properties' : List String}
    (known : ∀ name ∈ properties, p.IsProperty name)
    (done : p.parametersTo w close properties s = .ok (s', properties')) :
    p.Grows w.hole s.edits s'.edits ∧ ∀ name ∈ properties', p.IsProperty name := by
  fun_induction parametersTo p w close properties s with
  | case1 properties s less e failed => cases done
  | case2 properties s less next property found ih =>
    obtain ⟨grows, named⟩ := grows_parameter follows found
    have rest := ih (fun name mem => ?_) done
    · exact ⟨grows.trans rest.1, rest.2⟩
    · rcases List.mem_append.mp mem with mem | mem
      · exact known name mem
      · exact named name (Option.mem_toList.mp mem)
  | case3 properties s less =>
    cases done
    exact ⟨.refl _, known⟩

theorem grows_parameters (follows : w.Follows p) {properties : List String}
    (done : p.parameters w s = .ok (s', properties)) :
    p.Grows w.hole s.edits s'.edits ∧ ∀ name ∈ properties, p.IsProperty name := by
  obtain ⟨⟨inside, properties'⟩, walked, done⟩ := bind_eq_ok.mp done
  cases done
  have grows := grows_parametersTo follows (fun _ mem => by cases mem) walked
  exact grows

theorem grows_signature (follows : w.Follows p) (done : p.signature w s = .ok s') :
    p.Grows w.hole s.edits s'.edits := by
  obtain ⟨⟨next, properties⟩, walked, done⟩ := bind_eq_ok.mp done
  have grows := (grows_parameters follows walked).1
  dsimp only at done
  split at done
  · exact grows.trans (grows_annotated done)
  · cases done

/-! ## Classes -/

theorem grows_walkHeritage (follows : w.Follows p) (done : p.walkHeritage w s = .ok s') :
    p.Grows w.hole s.edits s'.edits := by
  fun_induction walkHeritage p w s with
  | case1 s none => cases done; exact .refl _
  | case2 s t found inside stops => cases done; exact .refl _
  | case3 s t found inside stops next e failed => cases done
  | case4 s t found inside stops next after same ih =>
    have grows : p.Grows w.hole s.edits after.edits := by
      unfold next at same
      split at same
      · exact grows_walkBracket follows same
      · split at same
        · exact grows_blankTypeParameters same
        · cases same
          exact .refl _
    exact grows.trans (ih done)

theorem grows_blankMemberModifiers (found : MemberModifiers) (s : State) :
    p.Grows hole s.edits (p.blankMemberModifiers found s).1.edits := by
  fun_induction blankMemberModifiers p found s with
  | case1 found s modifies inside word next ih =>
    have grows : p.Grows hole s.edits next.edits := by
      unfold next
      split
      · simp only [modifiesMember, Bool.and_eq_true] at modifies
        exact grows_blank (.inl (balanced_of_isOneOf modifies.1.1)) s
      · exact .refl _
    exact grows.trans ih
  | case2 found s plain => exact .refl _

/-- Only the modifiers abstract and declare make a member one that only states a type. -/
theorem ambient_blankMemberModifiers {found : MemberModifiers} (s : State)
    (ambient : (p.blankMemberModifiers found s).2.ambient = true) :
    found.ambient = true ∨
      ∃ m < (p.blankMemberModifiers found s).1.pos, p.text m ∈ ["abstract", "declare"] := by
  fun_induction blankMemberModifiers p found s with
  | case1 found s modifies inside word next ih =>
    refine (ih ambient).imp_left id |>.elim (fun here => ?_) .inr
    simp only [Bool.or_eq_true, beq_iff_eq] at here
    have later : s.pos < (p.blankMemberModifiers
        { ambient := found.ambient || word == "abstract" || word == "declare",
          isStatic := found.isStatic || word == "static" } (next.goto (s.pos + 1))).1.pos :=
      (balanced_blankMemberModifiers _ (next.goto (s.pos + 1))).le
    rcases here with (known | abstract) | declare
    · exact .inl known
    · exact .inr ⟨s.pos, later, by simp [← abstract, word]⟩
    · exact .inr ⟨s.pos, later, by simp [← declare, word]⟩
  | case2 found s plain => exact .inl ambient

theorem grows_walkDecorators (follows : w.Follows p) (done : p.walkDecorators w s = .ok s') :
    p.Grows w.hole s.edits s'.edits := by
  fun_induction walkDecorators p w s with
  | case1 s decorator inside named called next e failed => cases done
  | case2 s decorator inside named called next after same ih =>
    have grows : p.Grows w.hole s.edits after.edits := by
      unfold next at same
      split at same
      · have walked := grows_walkBracket follows same
        exact walked
      · cases same
        exact .refl _
    exact grows.trans (ih done)
  | case3 s plain => cases done; exact .refl _

theorem grows_method (follows : w.Follows p) {derived ambient : Bool} {start name : Nat}
    (before : p.Balanced start s.pos) (opens : p.isPunct s.pos "(" = true)
    (done : p.method w derived ambient start name s = .ok s') :
    p.Grows w.hole s.edits s'.edits := by
  unfold method at done
  obtain ⟨⟨afterParameters, properties⟩, walked, done⟩ := bind_eq_ok.mp done
  obtain ⟨typed, blanked, done⟩ := bind_eq_ok.mp done
  obtain ⟨grows, named⟩ := grows_parameters follows walked
  replace grows := grows.trans (grows_annotated blanked)
  have signature := (balanced_parameters opens walked).trans (balanced_annotated blanked)
  dsimp only at done
  split at done
  case isTrue body =>
    split at done
    · exact grows.trans (grows_walkBracket follows done)
    case isFalse declares =>
      split at done
      · cases done
      · split at done
        · cases done
        · -- The body is walked through with the assignments behind its brace.
          have brace : p.isPunct typed.pos openBrace = true := by
            rw [Bool.and_eq_true] at body
            exact body.1
          have filled : properties ≠ [] := by
            rintro rfl
            exact declares rfl
          have inserted : p.Grows w.hole typed.edits (⟨p.offset typed.pos + 1,
              p.offset typed.pos + 1, some (assignments properties)⟩ :: typed.edits) :=
            .assign brace filled named
          exact (grows.trans inserted).trans (grows_walkBracket follows done)
  case isFalse =>
    cases done
    have ended := balanced_skipPunct (p := p) typed ";" (by decide)
    exact grows.trans (grows_blank_skipPunct typed ";" (.inl (before.trans (signature.trans ended))))

theorem grows_classField (follows : w.Follows p) {close start : Nat} {ambient : Bool}
    (before : p.Balanced start s.pos)
    (marked : ambient = true → ∃ m < s.pos, p.text m ∈ ["abstract", "declare"])
    (done : p.classField w close ambient start s = .ok s') : p.Grows w.hole s.edits s'.edits := by
  unfold classField at done
  obtain ⟨typed, blanked, done⟩ := bind_eq_ok.mp done
  have typing := balanced_annotated blanked
  have ended (valued : State) := balanced_skipPunct (p := p) valued ";" (by decide)
  obtain ⟨valued, value, range, rfl⟩ : ∃ valued, p.Grows w.hole typed.edits valued.edits ∧
      (ambient = true → p.IsRange start (p.skipPunct valued ";").pos) ∧
      (if ambient then p.blank (p.skipPunct valued ";") start (p.skipPunct valued ";").pos
        else p.skipPunct valued ";") = s' := by
    dsimp only at done
    split at done
    case isTrue equals =>
      obtain ⟨valued, walked, done⟩ := bind_eq_ok.mp done
      have grows := follows _ _ _ _ walked
      refine ⟨valued, grows, fun ambient => .inr ?_, Except.ok.inj done⟩
      obtain ⟨m, less, modifier⟩ := marked ambient
      exact .field ⟨m, Nat.lt_of_lt_of_le less typing.le, modifier⟩ equals
    case isFalse =>
      exact ⟨typed, .refl _, fun _ => .inl (before.trans (typing.trans (ended typed))), Except.ok.inj done⟩
  have grows := (grows_annotated blanked).trans value
  split
  case isTrue ambient => exact grows.trans (grows_blank_skipPunct valued ";" (range ambient))
  case isFalse => exact grows.trans (grows_skipPunct ..)

theorem grows_walkMemberName (follows : w.Follows p) (done : p.walkMemberName w s = .ok s') :
    p.Grows w.hole s.edits s'.edits := by
  unfold walkMemberName at done
  split at done
  case h_5 =>
    split at done
    · exact grows_walkBracket follows done
    · cases done
  all_goals
    cases done
    exact .refl _

theorem grows_indexSignature {start : Nat} (before : p.Balanced start s.pos)
    (opens : p.isPunct s.pos "[" = true) (done : p.indexSignature start s = .ok s') :
    p.Grows hole s.edits s'.edits := by
  have bracket := before.trans (balanced_of_opener opens (by decide))
  obtain ⟨typed, range, rfl⟩ : ∃ typed, p.Balanced start typed ∧
      p.blank (p.skipPunct (s.goto typed) ";") start (p.skipPunct (s.goto typed) ";").pos = s' := by
    unfold indexSignature at done
    dsimp only at done
    split at done
    case isTrue colon =>
      obtain ⟨typed, type, done⟩ := bind_eq_ok.mp done
      have annotation := (balanced_of_isPunct colon (by decide)).trans (balanced_of_expectType type)
      exact ⟨typed, bracket.trans annotation, Except.ok.inj done⟩
    case isFalse => exact ⟨_, bracket, Except.ok.inj done⟩
  have ended := balanced_skipPunct (p := p) (s.goto typed) ";" (by decide)
  exact grows_blank_skipPunct (s.goto typed) ";" (.inl (range.trans ended))

theorem grows_classMember (follows : w.Follows p) {derived : Bool} {close : Nat}
    (done : p.classMember w derived close s = .ok s') : p.Grows w.hole s.edits s'.edits := by
  unfold classMember at done
  split at done
  · cases done
    exact .refl _
  · obtain ⟨decorated, walked, done⟩ := bind_eq_ok.mp done
    have grows := (grows_walkDecorators follows walked).trans
      (grows_blankMemberModifiers {} decorated)
    have front := (balanced_walkDecorators walked).trans (balanced_blankMemberModifiers {} decorated)
    have ambient := @ambient_blankMemberModifiers p {} decorated
    generalize p.blankMemberModifiers {} decorated = modified at grows front ambient done
    obtain ⟨plain, modifiers⟩ := modified
    dsimp only at front ambient done
    split at done
    · exact grows.trans (grows_walkBracket follows done)
    · replace grows := grows.trans (grows_skipPunct plain "*")
      have star := balanced_skipPunct (p := p) plain "*" (by decide)
      replace front := front.trans star
      split at done
      case isTrue index =>
        rw [Bool.and_eq_true, Bool.and_eq_true] at index
        exact grows.trans (grows_indexSignature front index.1.1 done)
      case isFalse =>
        obtain ⟨named, walked, done⟩ := bind_eq_ok.mp done
        obtain ⟨typed, blanked, done⟩ := bind_eq_ok.mp done
        have name := balanced_walkMemberName walked
        obtain ⟨marked, marker, place, blanked⟩ : ∃ marked, p.Grows w.hole named.edits marked.edits ∧
            p.Balanced named.pos marked.pos ∧ p.blankTypeParameters marked = .ok typed := by
          split at blanked
          · exact ⟨_, grows_blankMarker named _ (by decide), balanced_blankMarker named (by decide), blanked⟩
          · exact ⟨_, grows_blankMarker named _ (by decide), balanced_blankMarker named (by decide), blanked⟩
        replace grows := ((grows.trans (grows_walkMemberName follows walked)).trans marker).trans
          (grows_blankTypeParameters blanked)
        have rest := name.trans (place.trans (balanced_blankTypeParameters blanked))
        have before := front.trans rest
        split at done
        case isTrue opens => exact grows.trans (grows_method follows before opens done)
        case isFalse =>
          refine grows.trans (grows_classField follows before (fun isAmbient => ?_) done)
          obtain ⟨m, less, modifier⟩ := (ambient isAmbient).resolve_left (by decide)
          have further := (star.trans rest).le
          exact ⟨m, by omega, modifier⟩

theorem grows_classMembers (follows : w.Follows p) {derived : Bool} {close : Nat}
    (done : p.classMembers w derived close s = .ok s') : p.Grows w.hole s.edits s'.edits := by
  fun_induction classMembers p w derived close s with
  | case1 s less e failed => cases done
  | case2 s less next found ih => exact (grows_classMember follows found).trans (ih done)
  | case3 s less => cases done; exact .refl _

/-- A class goes on with its body, where one follows. -/
theorem grows_classBody (follows : w.Follows p) {derived : Bool} {resume : Nat} {headed : State}
    (done : (if p.isPunct headed.pos openBrace = true then do
        let members ← p.classMembers w derived (p.close headed.pos) (headed.skip 1)
        .ok (members.goto (p.close headed.pos + 1))
      else .ok (headed.goto resume)) = (.ok s' : Walk)) : p.Grows w.hole headed.edits s'.edits := by
  split at done
  · obtain ⟨members, walked, done⟩ := bind_eq_ok.mp done
    cases done
    have grows := grows_classMembers follows walked
    exact grows
  · cases done
    exact .refl _

theorem grows_classDeclaration (follows : w.Follows p) {i resume : Nat}
    (done : p.classDeclaration w i resume s = .ok s') : p.Grows w.hole s.edits s'.edits := by
  unfold classDeclaration at done
  obtain ⟨generic, blanked, done⟩ := bind_eq_ok.mp done
  have typed : p.Grows w.hole (s.goto _).edits generic.edits := grows_blankTypeParameters blanked
  have header (inherited : State) (grows : p.Grows w.hole generic.edits inherited.edits)
      (done : (if p.isWord inherited.pos "implements" = true then do
          let headed ← Except.ok (p.blankTo inherited (← p.bodyAhead inherited.pos inherited.pos))
          if p.isPunct headed.pos openBrace = true then do
            let members ← p.classMembers w (p.isWord generic.pos "extends") (p.close headed.pos)
              (headed.skip 1)
            .ok (members.goto (p.close headed.pos + 1))
          else .ok (headed.goto resume)
        else
          if p.isPunct inherited.pos openBrace = true then do
            let members ← p.classMembers w (p.isWord generic.pos "extends") (p.close inherited.pos)
              (inherited.skip 1)
            .ok (members.goto (p.close inherited.pos + 1))
          else .ok (inherited.goto resume)) = (.ok s' : Walk)) :
      p.Grows w.hole s.edits s'.edits := by
    split at done
    case isTrue implements =>
      obtain ⟨brace, ahead, done⟩ := bind_eq_ok.mp done
      have body : p.Grows w.hole (p.blankTo inherited brace).edits s'.edits :=
        grows_classBody follows done
      exact ((typed.trans grows).trans (grows_blankTo (.inr (.implements implements ahead)))).trans body
    case isFalse => exact (typed.trans grows).trans (grows_classBody follows done)
  dsimp only at done
  split at done
  · obtain ⟨inherited, walked, done⟩ := bind_eq_ok.mp done
    have heritage := grows_walkHeritage follows walked
    exact header inherited heritage done
  · exact header generic (.refl _) done

/-! ## Statements -/

theorem grows_blankAlias {i start : Nat} (before : p.Balanced start (i + 2))
    (done : p.blankAlias i start s = .ok s') : p.Grows hole s.edits s'.edits := by
  have tail (equals : Nat) (before : p.Balanced start equals)
      (done : (if p.isPunct equals "=" = true then do
        let ended := p.skipPunct (s.goto (← p.expectType (equals + 1))) ";"
        .ok (p.blank ended start ended.pos)
      else p.fail equals (.punctuatorExpected "=")) = (.ok s' : Walk)) :
      p.Grows hole s.edits s'.edits := by
    split at done
    case isTrue sign =>
      obtain ⟨stop, type, done⟩ := bind_eq_ok.mp done
      cases done
      have value := (balanced_of_isPunct sign (by decide)).trans (balanced_of_expectType type)
      have ended := balanced_skipPunct (p := p) (s.goto stop) ";" (by decide)
      exact grows_blank_skipPunct (s.goto stop) ";" (.inl (before.trans (value.trans ended)))
    case isFalse => cases done
  unfold blankAlias at done
  dsimp only at done
  split at done
  case isTrue opens =>
    obtain ⟨equals, angle, done⟩ := bind_eq_ok.mp done
    exact tail equals (before.trans (balanced_of_expectAngle opens angle)) done
  case isFalse => exact tail _ before done

theorem grows_typeStatement (follows : w.Follows p) {i start resume : Nat} (before : p.Balanced start i)
    (done : p.typeStatement w i start resume s = .ok s') : p.Grows w.hole s.edits s'.edits := by
  unfold typeStatement at done
  dsimp only at done
  split at done
  case isTrue interface =>
    rw [Bool.and_eq_true, beq_iff_eq] at interface
    obtain ⟨brace, ahead, done⟩ := bind_eq_ok.mp done
    cases done
    exact grows_blank (.inr (.interface interface.1 ahead)) s
  split at done
  case isTrue isAlias =>
    simp only [Bool.and_eq_true, beq_iff_eq] at isAlias
    have words := (balanced_of_text isAlias.1.1 (by decide)).trans (balanced_of_isName isAlias.1.2.1)
    exact grows_blankAlias (before.trans words) done
  split at done
  case isTrue declare =>
    rw [Bool.and_eq_true, beq_iff_eq] at declare
    cases done
    exact grows_blank (.inr (.declare declare.1)) s
  split at done
  case isTrue abstract =>
    simp only [Bool.and_eq_true, beq_iff_eq] at abstract
    have word := balanced_of_text abstract.1.1 (by decide)
    exact (grows_blank (.inl word) s).trans (grows_classDeclaration follows done)
  split at done
  case isTrue isEnum =>
    simp only [Bool.and_eq_true, beq_iff_eq] at isEnum
    refine .replace ?_ done
    have plain : ¬ p.isWord i "const" = true := fun isConst => by
      have text := text_of_isWord isConst
      rw [isEnum.1.1] at text
      exact absurd text (by decide)
    rw [enumKeyword, if_neg plain]
    exact isEnum.1.1
  split at done
  · cases done
  · cases done
    exact .refl _

theorem grows_blankTypeElements (limit k : Nat) (s : State) :
    p.Grows hole s.edits (p.blankTypeElements limit k s).edits := by
  fun_induction blankTypeElements p limit k s with
  | case1 k s less stop after length isType next ih =>
    have grows : p.Grows hole s.edits next.edits := by
      unfold next
      split
      case isTrue type =>
        simp only [isType, Bool.and_eq_true] at type
        exact grows_blank (.inr (.element type.1.1 rfl)) s
      case isFalse => exact .refl _
    exact grows.trans ih
  | case2 k s less => exact .refl _

theorem grows_importDeclaration {i : Nat} (done : p.importDeclaration i s = .ok s') :
    p.Grows hole s.edits s'.edits := by
  unfold importDeclaration at done
  dsimp only at done
  split at done
  · cases done
    exact .refl _
  · split at done
    case isTrue types =>
      rw [Bool.and_eq_true] at types
      cases done
      exact grows_blank (.inr (.moduleStatement types.1)) s
    · split at done
      · cases done
      · cases done
        cases p.clauseList? (i + 1) with
        | some k => exact grows_blankTypeElements ..
        | none => exact .refl _

theorem grows_functionDeclaration (follows : w.Follows p) {i start resume : Nat}
    (before : p.Balanced start (i + 1))
    (done : p.functionDeclaration w i start resume s = .ok s') :
    p.Grows w.hole s.edits s'.edits := by
  unfold functionDeclaration at done
  obtain ⟨generic, blanked, done⟩ := bind_eq_ok.mp done
  have starred : p.Grows w.hole s.edits (p.skipPunct (s.goto (i + 1)) "*").edits :=
    grows_skipPunct (s.goto (i + 1)) "*"
  have star : p.Balanced (i + 1) (p.skipPunct (s.goto (i + 1)) "*").pos :=
    balanced_skipPunct (s.goto (i + 1)) _ (by decide)
  obtain ⟨grows, header⟩ : p.Grows w.hole s.edits generic.edits ∧ p.Balanced (i + 1) generic.pos := by
    have angle := balanced_blankTypeParameters blanked
    refine ⟨starred.trans (.trans ?_ (grows_blankTypeParameters blanked)), star.trans (.trans ?_ angle)⟩
    · split <;> exact .refl _
    · split
      case isTrue name => exact balanced_of_isName name
      case isFalse => exact .refl _
  split at done
  case isTrue opens =>
    obtain ⟨typed, signed, done⟩ := bind_eq_ok.mp done
    replace grows := grows.trans (grows_signature follows signed)
    have signature := balanced_signature opens signed
    split at done
    · cases done
      exact grows
    · cases done
      have ended := balanced_skipPunct (p := p) typed ";" (by decide)
      have range := before.trans (header.trans (signature.trans ended))
      exact grows.trans (grows_blank_skipPunct typed ";" (.inl range))
  case isFalse =>
    cases done
    exact grows

/-- The word enum stands after the word const. -/
theorem text_enumKeyword {i : Nat} (isConst : p.isWord i "const" = true)
    (isEnum : p.isWord (i + 1) "enum" = true) : p.text (p.enumKeyword i) = "enum" := by
  rw [enumKeyword, if_pos isConst]
  exact text_of_isWord isEnum

theorem grows_exportDeclaration (follows : w.Follows p) {i : Nat} (word : p.isName i = true)
    (done : p.exportDeclaration w i s = .ok s') : p.Grows w.hole s.edits s'.edits := by
  have before := balanced_of_isName word
  unfold exportDeclaration at done
  dsimp only at done
  split at done
  · cases done
  split at done
  · cases done
  split at done
  case isTrue types =>
    rw [Bool.and_eq_true] at types
    cases done
    exact grows_blank (.inr (.moduleStatement types.1)) s
  split at done
  · cases done
    exact grows_blankTypeElements ..
  split at done
  · cases done
    exact .refl _
  split at done
  case isTrue default =>
    -- Behind the word default stands a declaration or an expression.
    replace before := before.trans (balanced_of_isWord default)
    split at done
    · exact grows_typeStatement follows before done
    split at done
    case isTrue function =>
      exact grows_functionDeclaration follows (before.trans (balanced_of_isWord function)) done
    split at done
    case isTrue both =>
      rw [Bool.and_eq_true] at both
      have words := (balanced_of_isWord both.1).trans (balanced_of_isWord both.2)
      exact grows_functionDeclaration follows (before.trans words) done
    · cases done
      exact .refl _
  split at done
  case isTrue function =>
    exact grows_functionDeclaration follows (before.trans (balanced_of_isWord function)) done
  split at done
  case isTrue both =>
    rw [Bool.and_eq_true] at both
    have words := (balanced_of_isWord both.1).trans (balanced_of_isWord both.2)
    exact grows_functionDeclaration follows (before.trans words) done
  split at done
  case isTrue isEnum =>
    rw [Bool.and_eq_true] at isEnum
    exact .replace (text_enumKeyword isEnum.1 isEnum.2) done
  split at done
  · exact grows_typeStatement follows before done
  · cases done
    exact .refl _

theorem grows_walkVariable (follows : w.Follows p) {limit : Nat}
    (done : p.walkVariable w limit s = .ok s') : p.Grows w.hole s.edits s'.edits := by
  unfold walkVariable at done
  obtain ⟨bound, walked, done⟩ := bind_eq_ok.mp done
  obtain ⟨typed, blanked, done⟩ := bind_eq_ok.mp done
  have marked := (grows_walkBinding follows walked).trans
    (grows_blankMarker bound "!" (by decide))
  exact (marked.trans (grows_annotated blanked)).trans (grows_walkValue follows done)

theorem grows_walkVariables (follows : w.Follows p) {limit : Nat}
    (done : p.walkVariables w limit s = .ok s') : p.Grows w.hole s.edits s'.edits := by
  fun_induction walkVariables p w limit s with
  | case1 s binds inside e failed => cases done
  | case2 s binds inside next found more ih =>
    exact (grows_walkVariable follows found).trans (ih done)
  | case3 s binds inside next found last =>
    cases done
    exact grows_walkVariable follows found
  | case4 s plain =>
    cases done
    exact .refl _

/-! ## Steps -/

theorem grows_stepAngle (opens : p.isPunct s.pos "<" = true) :
    p.Grows hole s.edits (p.stepAngle s).edits := by
  unfold stepAngle
  dsimp only
  split
  case h_1 => exact .refl _
  case h_2 stop later angle =>
    have range : p.IsRange s.pos stop := .inl (balanced_of_angleEnd? opens angle)
    split <;> split
    · exact grows_blankTo range
    · exact .refl _
    · exact grows_blankTo range
    · exact .refl _

theorem grows_stepAssertion (word : p.isName s.pos = true) (done : p.stepAssertion s = .ok s') :
    p.Grows hole s.edits s'.edits := by
  unfold stepAssertion at done
  split at done
  · cases done
    exact .refl _
  · obtain ⟨stop, type, done⟩ := bind_eq_ok.mp done
    cases done
    exact grows_blankTo (.inl ((balanced_of_isName word).trans (balanced_of_expectType type)))

theorem grows_stepParenthesis (follows : w.Follows p) (done : p.stepParenthesis w s = .ok s') :
    p.Grows w.hole s.edits s'.edits := by
  unfold stepParenthesis at done
  dsimp only at done
  split at done
  · exact grows_signature follows done
  · exact grows_walkBracket follows done

theorem grows_stepWord (follows : w.Follows p) {limit : Nat} (word : p.isName s.pos = true)
    (done : p.stepWord w limit s = .ok s') : p.Grows w.hole s.edits s'.edits := by
  unfold stepWord at done
  dsimp only at done
  split at done
  · cases done
    exact .refl _
  split at done
  · exact grows_importDeclaration done
  split at done
  · exact grows_exportDeclaration follows word done
  split at done
  · exact grows_functionDeclaration follows (balanced_of_isName word) done
  split at done
  · exact grows_classDeclaration follows done
  split at done
  case isTrue isEnum =>
    rw [Bool.and_eq_true, beq_iff_eq] at isEnum
    exact .replace (text_enumKeyword (isWord_of_text word isEnum.1) isEnum.2) done
  split at done
  · have grows := grows_walkVariables follows done
    exact grows
  split at done
  · exact grows_stepAssertion word done
  split at done
  · obtain ⟨⟨next, properties⟩, walked, done⟩ := bind_eq_ok.mp done
    cases done
    have grows := (grows_parameters follows walked).1
    exact grows
  split at done
  · exact grows_typeStatement follows (.refl _) done
  · cases done
    exact .refl _

theorem grows_stepHoles {t : Token} (token : t ∈ p.tokens) {holes : List Hole}
    (inside : ∀ h ∈ holes, h ∈ t.holes) (done : stepHoles w s holes = .ok s') :
    p.Grows w.hole s.edits s'.edits := by
  induction holes generalizing s with
  | nil =>
    cases done
    exact .refl _
  | cons h holes ih =>
    rw [List.forall_mem_cons] at inside
    unfold stepHoles at done
    split at done
    case h_1 => cases done
    case h_2 inner found => exact (Grows.adopt token inside.1 found).trans (ih inside.2 done)

theorem grows_step (follows : w.Follows p) {limit : Nat} (done : p.step w limit s = .ok s') :
    p.Grows w.hole s.edits s'.edits := by
  unfold step at done
  split at done
  case h_1 =>
    cases done
    exact .refl _
  case h_2 t found =>
    split at done
    · exact grows_stepParenthesis follows done
    split at done
    · exact grows_walkBracket follows done
    have punct {text : String} (same : t.isPunct text = true) : p.isPunct s.pos text = true := by
      rw [isPunct, is, found]
      exact same
    split at done
    case isTrue opens =>
      cases done
      exact grows_stepAngle (punct opens)
    split at done
    case isTrue asserts =>
      simp only [Bool.and_eq_true] at asserts
      cases done
      exact grows_blankTo (.inl (balanced_of_isPunct (punct asserts.1.1.1) (by decide)))
    split at done
    case isTrue word =>
      refine grows_stepWord follows ?_ done
      rw [isName, is, found]
      exact word
    split at done
    · have grows := grows_stepHoles (Array.mem_of_getElem? found) (fun _ mem => mem) done
      exact grows
    · cases done
      exact .refl _

end Steps

/-- All that a walk does to its edits. -/
theorem walk_grows {p : Program} {hole : Hole → Except Failure Edits} {limit : Nat}
    {stop : Nat → Bool} {s s' : State} (done : p.walk hole limit stop s = .ok s') :
    p.Grows hole s.edits s'.edits := by
  fun_induction walk p hole limit stop s generalizing s' with
  | case1 => cases done
  | case2 limit stop s inside goes inner next found nested =>
    rename_i rest
    have follows : inner.Follows p := fun limit stop t t' walked => nested limit stop t walked
    exact (grows_step follows found).trans (rest done)
  | case3 => cases done; exact .refl _
  | case4 => cases done; exact .refl _

end Program

end ModuleLinker.Erase
